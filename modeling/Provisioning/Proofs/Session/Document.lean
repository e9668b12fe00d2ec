import Provisioning.Session
import Provisioning.Proofs.Json.Reading

/-! The documents of a session. The text that is handed over and the text that is digested are both read
back as the session, so that neither of them stands for two sessions. -/

namespace Provisioning

namespace Directive

theorem toJson_plain (depth : Nat) (d : Directive) : Json.Plain (depth + 1) d.toJson := by
  refine .object fun f hf => ?_
  rcases List.mem_cons.mp hf with rfl | hf
  · exact .string depth d.kind.name
  · have port (p : UInt16) : p.toNat < Nat.pow 2 64 :=
      Nat.lt_trans p.toNat_lt (by decide)
    cases d with
    | box name =>
      obtain rfl := List.mem_singleton.mp hf
      exact .string depth name
    | provider driver name gui =>
      simp only [List.mem_cons, List.not_mem_nil, or_false] at hf
      rcases hf with rfl | rfl | rfl
      · exact .string depth driver
      · exact .string depth name
      · exact .boolean depth gui
    | syncedFolder host guest | fileCopy host guest =>
      simp only [List.mem_cons, List.not_mem_nil, or_false] at hf
      rcases hf with rfl | rfl
      · exact .string depth host
      · exact .string depth guest
    | forwardedPort guest host =>
      simp only [List.mem_cons, List.not_mem_nil, or_false] at hf
      rcases hf with rfl | rfl
      · exact .natural depth (port guest)
      · exact .natural depth (port host)
    | shell f =>
      simp only [List.mem_cons, List.not_mem_nil, or_false] at hf
      rcases hf with rfl | rfl | rfl
      · exact .string depth f.text
      · exact .boolean depth f.privileged
      · exact .string depth f.directory

theorem port?_natural (p : UInt16) : port? (.natural p.toNat) = some p := by
  have bound : (p.toNat : Int) < 65536 := by have := p.toNat_lt; omega
  simp [port?, Json.natural, bound]

theorem kind?_name (k : Kind) : kind? (.string k.name) = some k := by
  cases k <;> rfl

/-- An object with a kind and the fields of that kind is read by their values. -/
theorem ofJson?_object {fields : List (String × Json)} (k : Kind) (values : List Json)
    (kind : field? fields "kind" = some (.string k.name))
    (rest : (fieldNames k).mapM (field? fields) = some values) : ofJson? (.object fields) = ofValues? k values := by
  rw [ofJson?, kind]
  show (kind? (.string k.name)).bind _ = _
  rw [kind?_name]
  show ((fieldNames k).mapM (field? fields)).bind _ = _
  rw [rest]
  rfl

/-- The kind and the fields of a directive tell which directive it is. -/
theorem ofJson?_toJson (d : Directive) : ofJson? d.toJson = some d := by
  cases d with
  | box name => exact ofJson?_object .box [.string name] rfl rfl
  | provider driver name gui =>
    exact ofJson?_object .provider [.string driver, .string name, .boolean gui] rfl rfl
  | syncedFolder host guest => exact ofJson?_object .syncedFolder [.string host, .string guest] rfl rfl
  | forwardedPort guest host =>
    have values : ofValues? .forwardedPort [.natural guest.toNat, .natural host.toNat] =
        some (.forwardedPort guest host) := by
      rw [ofValues?, port?_natural, port?_natural]
      rfl
    rw [← values]
    exact ofJson?_object .forwardedPort [.natural guest.toNat, .natural host.toNat] rfl rfl
  | fileCopy host guest => exact ofJson?_object .fileCopy [.string host, .string guest] rfl rfl
  | shell f =>
    exact ofJson?_object .shell [.string f.text, .boolean f.privileged, .string f.directory] rfl rfl

end Directive

namespace Session

theorem ofJson?_toJson (s : Session) : ofJson? s.toJson = some s := by
  have items : (s.directives.map Directive.toJson).mapM Directive.ofJson? = some s.directives := by
    induction s.directives with
    | nil => rfl
    | cons d l ih =>
      rw [List.map_cons, List.mapM_cons, Directive.ofJson?_toJson, ih]
      rfl
  have read : ofJson? s.toJson =
      ((s.directives.map Directive.toJson).mapM Directive.ofJson?).bind fun l => some ⟨l⟩ := rfl
  rw [read, items]
  rfl

/-- A session is read back from its text in every layout. -/
theorem parse?_write {l : Json.Layout} (spaced : l.Spaced) (s : Session) {blanks : List Char}
    (blank : ∀ c ∈ blanks, Json.isSpace c = true) :
    parse? (String.ofList (s.toJson.write l 0 ++ blanks)) = some s := by
  have plain : Json.Plain (Json.maxDepth - 1) (.array (s.directives.map Directive.toJson)) := by
    show Json.Plain (125 + 1) _
    refine .array fun v hv => ?_
    obtain ⟨d, -, rfl⟩ := List.mem_map.mp hv
    exact d.toJson_plain 124
  have document := Json.readDocument?_write spaced
    (fun key => if key = "directives" then .strict else .lenient) "directives" _ []
    (fun f hf => by obtain rfl := List.mem_singleton.mp hf; exact ⟨rfl, plain⟩) blank
  rw [parse?, toJson, document]
  exact ofJson?_toJson s

theorem parse?_document (s : Session) : parse? s.document = some s := by
  have text : s.document = String.ofList (s.toJson.write .pretty 0 ++ ['\n']) := by
    rw [document, Json.pretty, String.ofList_append]
  rw [text]
  exact parse?_write Json.Layout.pretty_spaced s (List.forall_mem_singleton.mpr rfl)

theorem parse?_digested (s : Session) : parse? s.digested = some s := by
  have text : s.digested = String.ofList (s.toJson.write .compact 0 ++ []) := by
    rw [digested, Json.compact, List.append_nil]
  rw [text]
  exact parse?_write Json.Layout.compact_spaced s (by simp)

/-- Both texts of a session give it back, the digested text stands for one session only, and the hash of what
is read from a document is the hash of the session that the document was written for. -/
theorem texts_identify (s s' : Session) :
    parse? s.document = some s ∧ parse? s.digested = some s ∧ (s.digested = s'.digested ↔ s = s') ∧
      (parse? s.document).map hash = some s.hash := by
  refine ⟨parse?_document s, parse?_digested s, ⟨fun same => ?_, congrArg digested⟩, ?_⟩
  · have read := parse?_digested s
    rw [same, parse?_digested] at read
    exact (Option.some.inj read).symm
  · rw [parse?_document]
    rfl

end Session

end Provisioning
