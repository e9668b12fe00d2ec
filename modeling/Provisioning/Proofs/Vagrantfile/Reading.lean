import Provisioning.Proofs.Vagrantfile.Delimiter
import Provisioning.Proofs.Vagrantfile.Reader

/-! Reading back what is rendered. The reader gives every directive of a session as far as a Vagrantfile
shows it, whatever text stands in its names, paths and scripts; so a Vagrantfile tells all of its session but
the directories of the scripts and whether their last lines end. -/

namespace Provisioning.Session.Vagrantfile

/-! ### Words, literals and numbers -/

theorem after_append (word : String) (rest : List Char) : after word (word.toList ++ rest) = some rest := by
  rw [after]
  induction word.toList with
  | nil => rfl
  | cons c cs ih => simp [List.isPrefixOf?, ih]

theorem readInside_escapeLiteral (cs rest : List Char) :
    readInside (escapeLiteral cs ++ '\x22' :: rest) = some (cs, rest) := by
  induction cs with
  | nil => rw [escapeLiteral, List.nil_append, readInside]
  | cons c cs ih =>
    rw [escapeLiteral]
    split
    · rw [List.cons_append, List.cons_append, readInside, ih]
      rfl
    · next plain =>
      obtain ⟨backslash, quote, sign⟩ : c ≠ '\\' ∧ c ≠ '\x22' ∧ c ≠ '#' := by
        simpa [literalActive] using plain
      rw [List.cons_append, readInside, ih]
      · simp [backslash, sign]
      all_goals simp_all

theorem readLiteral_literal (s : String) (rest : List Char) :
    readLiteral ((literal s).toList ++ rest) = some (s, rest) := by
  have text : (literal s).toList ++ rest = "\"".toList ++ (escapeLiteral s.toList ++ '\x22' :: rest) := by
    simp [literal]
  rw [text, readLiteral, after_append]
  show (readInside _).bind _ = _
  rw [readInside_escapeLiteral]
  simp

theorem readFlag_flag (b : Bool) (rest : List Char) : readFlag ((flag b).toList ++ rest) = some (b, rest) := by
  cases b with
  | false => rfl
  | true => rw [flag, if_pos rfl, readFlag, after_append]

theorem readPort_portText (p : UInt16) {rest : List Char} (h : Decimal.startsWithDigit rest = false) :
    readPort ((portText p).toList ++ rest) = some (p, rest) := by
  have bound : p.toNat < 65536 := p.toNat_lt
  rw [portText, readPort, Decimal.takeWhile_digitText_append h, Decimal.dropWhile_digitText_append h,
    Decimal.ofDigits_digitText, if_pos bound, UInt16.ofNat_toNat]

/-! ### Scripts -/

/-- A script with its last line ended. -/
def ended (text : String) : String := if endsLine text then text else text ++ "\n"

theorem ended_eq (text : String) : ended text = text ++ if endsLine text then "" else "\n" := by
  unfold ended
  split
  · exact String.append_empty.symm
  · rfl

/-- The characters of a script up to the end of its last line. -/
def unended (text : String) : List Char := if endsLine text then text.toList.dropLast else text.toList

theorem toList_ended (text : String) : (ended text).toList = unended text ++ ['\n'] := by
  unfold ended unended
  split
  · next h =>
    have last : text.toList.getLast? = some '\n' := of_decide_eq_true h
    exact (List.dropLast_append_getLast? _ last).symm
  · exact String.toList_append ..

/-- A feed at the end of a script makes no line that a delimiter could equal. -/
theorem exists_mem_unended {word : List Char} (h : word ≠ []) (text : String) :
    (∃ piece ∈ Text.splitOn '\n' (unended text), Text.trim piece = word) ↔
      ∃ piece ∈ Text.splitOn '\n' text.toList, Text.trim piece = word := by
  have empty : Text.trim ([] : List Char) ≠ word := Ne.symm h
  unfold unended
  split
  · next ends =>
    have last : text.toList.getLast? = some '\n' := of_decide_eq_true ends
    have pieces := Text.splitOn_append '\n' text.toList.dropLast []
    rw [List.dropLast_append_getLast? _ last] at pieces
    rw [pieces]
    simp [Text.splitOn, empty]
  · exact Iff.rfl

theorem delimiter_mem_trimmedLines (n : Nat) (text : String) : delimiter n ∈ trimmedLines text ↔
    ∃ piece ∈ Text.splitOn '\n' (unended text), Text.trim piece = (delimiter n).toList := by
  have texts (line : List Char) :
      String.ofList (Text.trim line) = delimiter n ↔ Text.trim line = (delimiter n).toList := by
    rw [← String.toList_inj, String.toList_ofList]
  rw [exists_mem_unended (delimiter_ne_nil n), ← Text.exists_mem_lines (delimiter_ne_nil n), trimmedLines,
    List.mem_map]
  simp only [texts]

/-- The delimiter of a script is the same whether or not its last line ends. -/
theorem delimiterFor_congr {text text' : String} (h : ended text = ended text') :
    delimiterFor text = delimiterFor text' := by
  have same : unended text = unended text' := by
    have lists := congrArg String.toList h
    rw [toList_ended, toList_ended] at lists
    exact List.append_cancel_right lists
  obtain ⟨k, eq, free, least⟩ := delimiterFor_eq text
  obtain ⟨k', eq', free', least'⟩ := delimiterFor_eq text'
  have taken (n : Nat) : delimiter n ∈ trimmedLines text ↔ delimiter n ∈ trimmedLines text' := by
    rw [delimiter_mem_trimmedLines, delimiter_mem_trimmedLines, same]
  -- Both are the least candidate that is free, and the same candidates are taken.
  rcases Nat.lt_trichotomy k k' with earlier | rfl | later
  · exact absurd ((taken k).mpr (least' k earlier)) free
  · rw [eq, eq']
  · exact absurd ((taken k').mp (least k' later)) free'

/-- Lines are read up to the first one that equals the delimiter. -/
theorem readBody_lines {ending : List Char} {lines : List (List Char)}
    (h : ∀ line ∈ lines, '\n' ∉ line ∧ Text.trim line ≠ ending) {last : List Char} (noBreak : '\n' ∉ last)
    (trimmed : Text.trim last = ending) (rest : List Char) :
    readBody ending (lines.flatMap (· ++ ['\n']) ++ (last ++ '\n' :: rest)) =
      some (lines.flatMap (· ++ ['\n']), rest) := by
  induction lines with
  | nil =>
    rw [List.flatMap_nil, List.nil_append, readBody]
    have split := Text.splitOnce?_append noBreak rest
    split
    · simp_all
    · simp_all
  | cons line lines ih =>
    obtain ⟨inside, other⟩ := h line List.mem_cons_self
    have later := ih fun line hl => h line (List.mem_cons_of_mem _ hl)
    have split := Text.splitOnce?_append inside (lines.flatMap (· ++ ['\n']) ++ (last ++ '\n' :: rest))
    rw [readBody]
    simp only [List.flatMap_cons, List.append_assoc, List.singleton_append]
    split
    · simp_all
    · simp_all

/-- A script is read up to the line with its delimiter. -/
theorem readBody_ended (text : String) (rest : List Char) :
    readBody (delimiterFor text).toList
      ((ended text).toList ++ ("  ".toList ++ ((delimiterFor text).toList ++ ("\n".toList ++ rest)))) =
        some ((ended text).toList, rest) := by
  obtain ⟨k, eq, free, -⟩ := delimiterFor_eq text
  rw [eq]
  have lines : ∀ line ∈ Text.splitOn '\n' (unended text),
      '\n' ∉ line ∧ Text.trim line ≠ (delimiter k).toList := fun line hl =>
    ⟨Text.not_mem_of_mem_splitOn hl,
      fun same => free ((delimiter_mem_trimmedLines k text).mpr ⟨line, hl, same⟩)⟩
  have trimmed : Text.trim ("  ".toList ++ (delimiter k).toList) = (delimiter k).toList :=
    Text.trim_append (List.all_eq_true.mp (by decide)) fun _ => isBlank_of_mem_delimiter
  have noBreak : '\n' ∉ "  ".toList ++ (delimiter k).toList := by
    intro h
    rcases List.mem_append.mp h with blank | inside
    · revert blank
      decide
    · exact absurd (isBlank_of_mem_delimiter inside) (by decide)
  have body := readBody_lines lines noBreak trimmed rest
  rw [Text.splitOn_flatMap, ← toList_ended] at body
  simpa using body

/-! ### Directives -/

/-- What a Vagrantfile shows of a directive: the last line of a script ends, and its directory is left out. -/
def shown : Directive → Directive
  | .shell f => .shell ⟨ended f.text, f.privileged, ""⟩
  | d => d

/-- Two words that differ at a place that both have. -/
def apart : List Char → List Char → Bool
  | c :: cs, d :: ds => c != d || apart cs ds
  | _, _ => false

theorem after_of_apart {word other : String} (h : apart word.toList other.toList = true) (rest : List Char) :
    after word (other.toList ++ rest) = none := by
  have lists (cs ds : List Char) (h : apart cs ds = true) : cs.isPrefixOf? (ds ++ rest) = none := by
    induction cs, ds using apart.induct with
    | case1 c cs d ds ih =>
      by_cases same : c = d
      · have later : apart cs ds = true := by simpa [apart, same] using h
        simpa [List.isPrefixOf?, same] using ih later
      · simp [List.isPrefixOf?, same]
    | case2 => simp_all [apart]
  exact lists word.toList other.toList h

theorem openings_apart : ∀ k ∈ Kind.all, ∀ k' ∈ Kind.all, k ≠ k' →
    apart (opening k).toList (opening k').toList = true := by decide

/-- A directive is read by the reader of its kind. -/
theorem readDirective_opening (k : Kind) (rest : List Char) :
    readDirective ((opening k).toList ++ rest) = readRest k rest := by
  have other (k' : Kind) (h : k' ≠ k) : after (opening k') ((opening k).toList ++ rest) = none :=
    after_of_apart (openings_apart k' k'.mem_all k k.mem_all h) rest
  have own := after_append (opening k) rest
  unfold readDirective
  cases result : readRest k rest with
  | none =>
    refine List.findSome?_eq_none_iff.mpr fun k' _ => ?_
    by_cases same : k' = k
    · rw [same, own, Option.bind_some, result]
    · rw [other k' same, Option.bind_none]
  | some read => cases k <;> simp [Kind.all, List.findSome?, own, other, result]

theorem readDirective_box (name : String) (rest : List Char) :
    readDirective ((render (.box name)).toList ++ rest) = some (shown (.box name), rest) := by
  have opened := readDirective_opening .box
  -- The words become variables, here and below: what is read does not depend on their letters.
  revert opened
  unfold render readRest readBox opening shown
  generalize "  config.vm.box = " = word, "\n" = feed
  intro opened
  simp [opened, after_append, readLiteral_literal]

theorem readDirective_provider (driver name : String) (gui : Bool) (rest : List Char) :
    readDirective ((render (.provider driver name gui)).toList ++ rest) =
      some (shown (.provider driver name gui), rest) := by
  have opened := readDirective_opening .provider
  revert opened
  unfold render readRest readProvider opening shown
  generalize "  config.vm.provider " = first, " do |vm|\n    vm.name = " = second,
    "\n    vm.gui = " = third, "\n  end\n" = last
  intro opened
  simp [opened, after_append, readLiteral_literal, readFlag_flag]

theorem readPaths_append (between host guest : String) (rest : List Char) :
    readPaths between ((literal host).toList ++
      (between.toList ++ ((literal guest).toList ++ ("\n".toList ++ rest)))) = some ((host, guest), rest) := by
  unfold readPaths
  generalize "\n" = feed
  simp [after_append, readLiteral_literal]

theorem readDirective_syncedFolder (host guest : String) (rest : List Char) :
    readDirective ((render (.syncedFolder host guest)).toList ++ rest) =
      some (shown (.syncedFolder host guest), rest) := by
  have opened := readDirective_opening .syncedFolder
  have paths := readPaths_append ", " host guest rest
  revert opened paths
  unfold render readRest opening shown
  generalize "  config.vm.synced_folder " = word, ", " = comma, "\n" = feed
  intro opened paths
  simp [opened, paths]

theorem readDirective_fileCopy (host guest : String) (rest : List Char) :
    readDirective ((render (.fileCopy host guest)).toList ++ rest) =
      some (shown (.fileCopy host guest), rest) := by
  have opened := readDirective_opening .fileCopy
  have paths := readPaths_append ", destination: " host guest rest
  revert opened paths
  unfold render readRest opening shown
  generalize "  config.vm.provision :file, source: " = first, ", destination: " = second, "\n" = feed
  intro opened paths
  simp [opened, paths]

theorem readDirective_forwardedPort (guest host : UInt16) (rest : List Char) :
    readDirective ((render (.forwardedPort guest host)).toList ++ rest) =
      some (shown (.forwardedPort guest host), rest) := by
  have opened := readDirective_opening .forwardedPort
  have comma (rest : List Char) : Decimal.startsWithDigit (", host: ".toList ++ rest) = false := rfl
  have ending (rest : List Char) : Decimal.startsWithDigit ("\n".toList ++ rest) = false := rfl
  revert opened comma ending
  unfold render readRest readForwardedPort opening shown
  generalize "  config.vm.network \"forwarded_port\", guest: " = first, ", host: " = second, "\n" = feed
  intro opened comma ending
  simp [opened, after_append, readPort_portText, comma, ending]

theorem apostrophe_not_mem_delimiterFor (text : String) : '\x27' ∉ (delimiterFor text).toList := by
  obtain ⟨k, eq, -⟩ := delimiterFor_eq text
  rw [eq]
  exact apostrophe_not_mem_delimiter k

theorem readDirective_shell (f : Fragment) (rest : List Char) :
    readDirective ((render (.shell f)).toList ++ rest) = some (shown (.shell f), rest) := by
  have opened := readDirective_opening .shell
  have word (rest : List Char) := Text.splitOnce?_append (apostrophe_not_mem_delimiterFor f.text) rest
  have body := readBody_ended f.text rest
  have quote : "'\n".toList = '\x27' :: "\n".toList := rfl
  have text (s : String) : f.text ++ ((if endsLine f.text then "" else "\n") ++ s) = ended f.text ++ s := by
    rw [ended_eq, String.append_assoc]
  revert opened body quote text
  unfold render readRest readShell opening shown
  generalize "  config.vm.provision :shell, privileged: " = first, ", inline: <<-'" = second,
    "'\n" = third, "\n" = feed, "  " = indent, "" = empty
  intro opened body quote text
  simp only [String.append_assoc, text]
  simp [opened, after_append, readFlag_flag, quote, word, body]

/-- A directive is read up to its end, whatever follows. -/
theorem readDirective_render (d : Directive) (rest : List Char) :
    readDirective ((render d).toList ++ rest) = some (shown d, rest) := by
  cases d with
  | box name => exact readDirective_box name rest
  | provider driver name gui => exact readDirective_provider driver name gui rest
  | syncedFolder host guest => exact readDirective_syncedFolder host guest rest
  | forwardedPort guest host => exact readDirective_forwardedPort guest host rest
  | fileCopy host guest => exact readDirective_fileCopy host guest rest
  | shell f => exact readDirective_shell f rest

/-! ### Programs -/

/-- No directive begins where a program ends. -/
theorem readDirective_end : readDirective "end\n".toList = none := by decide

theorem render_ne_empty (d : Directive) : render d ≠ "" := by
  intro empty
  have first := readDirective_render d []
  have blank : readDirective [] = none := by decide
  rw [empty, String.toList_empty, List.append_nil, blank] at first
  cases first

theorem readDirectives_render (ds : List Directive) {fuel : Nat} (h : ds.length ≤ fuel) :
    readDirectives fuel ((ds.flatMap fun d => (render d).toList) ++ "end\n".toList) = some (ds.map shown) := by
  have stop := readDirective_end
  induction ds generalizing fuel with
  | nil =>
    rw [List.flatMap_nil, List.nil_append]
    cases fuel <;> rw [readDirectives, if_pos rfl] <;> rfl
  | cons d ds ih =>
    obtain ⟨fuel, rfl⟩ : ∃ n, fuel = n + 1 := ⟨fuel - 1, by simp at h; omega⟩
    have first := readDirective_render d ((ds.flatMap fun d => (render d).toList) ++ "end\n".toList)
    have later := ih (Nat.le_of_succ_le_succ h)
    rw [List.flatMap_cons, List.append_assoc, readDirectives]
    revert stop later first
    generalize "end\n".toList = ending
    intro stop first later
    -- What begins like the end of a program would not be read as a directive.
    have more : (render d).toList ++ ((ds.flatMap fun d => (render d).toList) ++ ending) ≠ ending := by
      intro same
      rw [same, stop] at first
      cases first
    simp [if_neg more, first, later]

theorem length_le_length_render (ds : List Directive) :
    ds.length ≤ (ds.flatMap fun d => (render d).toList).length := by
  induction ds with
  | nil => exact Nat.zero_le _
  | cons d ds ih =>
    have nonempty : (render d).toList ≠ [] := fun empty => render_ne_empty d (String.toList_inj.mp empty)
    have := List.length_pos_iff.mpr nonempty
    rw [List.flatMap_cons, List.length_append, List.length_cons]
    omega

/-- A program is read back directive by directive. -/
theorem read?_vagrantfile (s : Session) : read? s.vagrantfile = some (s.directives.map shown) := by
  have length := length_le_length_render s.directives
  have fuel : s.directives.length ≤
      ((s.directives.flatMap fun d => (render d).toList) ++ "end\n".toList).length := by
    rw [List.length_append]
    omega
  have read := readDirectives_render s.directives fuel
  have texts : (String.join (s.directives.map render)).toList =
      s.directives.flatMap fun d => (render d).toList := by
    rw [String.toList_join, List.flatMap_map]
  revert read
  unfold read? vagrantfile
  generalize "Vagrant.configure(\"2\") do |config|\n" = first, "end\n" = last
  intro read
  rw [String.toList_append, String.toList_append, texts, List.append_assoc, after_append]
  exact read

/-! ### What a program tells -/

theorem ended_ended (text : String) : ended (ended text) = ended text := by
  have last : endsLine (ended text) = true := by
    rw [endsLine, toList_ended]
    simp
  rw [ended, if_pos last]

/-- A directive is rendered as far as it is shown. -/
theorem render_shown (d : Directive) : render (shown d) = render d := by
  cases d with
  | shell f =>
    have word := delimiterFor_congr (ended_ended f.text)
    have text (s : String) : ended f.text ++ ((if endsLine (ended f.text) then "" else "\n") ++ s) =
        f.text ++ ((if endsLine f.text then "" else "\n") ++ s) := by
      rw [← String.append_assoc, ← ended_eq, ended_ended, ended_eq, String.append_assoc]
    revert text
    unfold shown render
    generalize "  config.vm.provision :shell, privileged: " = first, ", inline: <<-'" = second,
      "'\n" = third, "\n" = feed, "  " = indent, "" = empty
    intro text
    simp only [String.append_assoc, text, word]
  | _ => rfl

theorem map_render_shown (ds : List Directive) : (ds.map shown).map render = ds.map render := by
  rw [List.map_map]
  exact List.map_congr_left fun d _ => render_shown d

/-- A Vagrantfile can be read back. Whatever text stands in it, each directive is read up to its own end; so a
whole program gives its directives as far as they are shown, in their order, and it tells them apart. -/
theorem vagrantfile_shows (s s' : Session) :
    (∀ d rest, readDirective ((render d).toList ++ rest) = some (shown d, rest)) ∧
      read? s.vagrantfile = some (s.directives.map shown) ∧
      (s.vagrantfile = s'.vagrantfile ↔ s.directives.map shown = s'.directives.map shown) := by
  refine ⟨readDirective_render, read?_vagrantfile s, fun same => ?_, fun same => ?_⟩
  · have read := read?_vagrantfile s
    rw [same, read?_vagrantfile s'] at read
    exact (Option.some.inj read).symm
  · have rendered : s.directives.map render = s'.directives.map render := by
      rw [← map_render_shown s.directives, same, map_render_shown]
    unfold vagrantfile
    rw [rendered]

end Provisioning.Session.Vagrantfile
