import Mathlib.Data.List.Induction
import Mathlib.Data.List.Zip
import Provisioning.Proofs.Config.Conversion
import Provisioning.Proofs.Text.Utf8

/-! What a value comes to as an argument. The argument is the value unfolded: a table that is reached in two places
is there twice, and there is no argument for a table that is reached from inside itself. -/

namespace Provisioning

/-! ### Maps -/

namespace Argument

/-- The fields are in the order of their keys, each of which is there once. -/
def Sorted (fields : List (String × Argument)) : Prop := fields.Pairwise fun p q => p.1 < q.1

variable {key : String} {x : Argument} {fields fields' : List (String × Argument)}

theorem mem_insertField (sorted : Sorted fields) {p : String × Argument} :
    p ∈ insertField key x fields ↔ p = (key, x) ∨ p.1 ≠ key ∧ p ∈ fields := by
  induction fields with
  | nil => simp [insertField]
  | cons q fields ih =>
    obtain ⟨first, rest⟩ := List.pairwise_cons.mp sorted
    have later {k : String} (before : k = q.1 ∨ k < q.1) (h : p ∈ fields) : p.1 ≠ k := by
      rintro rfl
      rcases before with same | less
      · exact String.lt_irrefl _ (same ▸ first p h)
      · exact String.lt_irrefl _ (String.lt_trans less (first p h))
    rw [insertField, List.mem_cons]
    split
    · next less =>
      have here : p = q → p.1 ≠ key := by
        rintro rfl same
        exact String.lt_irrefl _ (same ▸ less)
      rw [List.mem_cons, List.mem_cons]
      constructor
      · rintro (new | old | old)
        · exact .inl new
        · exact .inr ⟨here old, .inl old⟩
        · exact .inr ⟨later (.inr less) old, .inr old⟩
      · exact fun h => h.imp_right And.right
    · split
      · next same =>
        rw [List.mem_cons]
        constructor
        · rintro (new | old)
          · exact .inl new
          · exact .inr ⟨later (.inl same) old, .inr old⟩
        · rintro (new | ⟨other, rfl | old⟩)
          · exact .inl new
          · exact absurd same.symm other
          · exact .inr old
      · next greater other =>
        have here : p = q → p.1 ≠ key := by
          rintro rfl same
          exact other same.symm
        rw [List.mem_cons, ih rest]
        constructor
        · rintro (old | new | ⟨other, old⟩)
          · exact .inr ⟨here old, .inl old⟩
          · exact .inl new
          · exact .inr ⟨other, .inr old⟩
        · rintro (new | ⟨other, old | old⟩)
          · exact .inr (.inl new)
          · exact .inl old
          · exact .inr (.inr ⟨other, old⟩)

theorem Sorted.insertField (sorted : Sorted fields) : Sorted (insertField key x fields) := by
  induction fields with
  | nil => exact List.pairwise_singleton _ _
  | cons q fields ih =>
    obtain ⟨first, rest⟩ := List.pairwise_cons.mp sorted
    rw [Argument.insertField]
    split
    · next less =>
      refine List.pairwise_cons.mpr ⟨fun p h => ?_, sorted⟩
      rcases List.mem_cons.mp h with rfl | later
      · exact less
      · exact String.lt_trans less (first p later)
    · split
      · next same =>
        refine List.pairwise_cons.mpr ⟨fun p h => ?_, rest⟩
        exact same ▸ first p h
      · next greater other =>
        refine List.pairwise_cons.mpr ⟨fun p h => ?_, ih rest⟩
        rcases (mem_insertField rest).mp h with rfl | ⟨-, later⟩
        · exact String.not_le.mp fun le => other (String.le_antisymm le (String.not_lt.mp greater))
        · exact first p later

theorem Sorted.ext (sorted : Sorted fields) (sorted' : Sorted fields') (same : ∀ p, p ∈ fields ↔ p ∈ fields') :
    fields = fields' := by
  have distinct {l : List (String × Argument)} (h : Sorted l) : l.Nodup := by
    refine List.Pairwise.imp (fun {p q} lt => ?_) h
    rintro rfl
    exact String.lt_irrefl _ lt
  refine List.Perm.eq_of_pairwise ?_ sorted sorted'
    ((List.perm_ext_iff_of_nodup (distinct sorted) (distinct sorted')).mpr same)
  intro p q _ _ lt gt
  exact absurd (String.lt_trans lt gt) (String.lt_irrefl _)

end Argument

namespace Config

open Relation

theorem Key.text_inj {s t : String} : Key.text s = Key.text t ↔ s = t := by
  refine ⟨fun h => ?_, congrArg _⟩
  have bytes : Text.utf8 s = Text.utf8 t := Key.string.inj h
  exact Option.some.inj ((Text.ofUtf8?_utf8 s).symm.trans (bytes ▸ Text.ofUtf8?_utf8 t))

/-- The fields are a map of the entries. Of two entries with one key the later one counts. -/
structure MapOf (entries fields : List (String × Argument)) : Prop where
  sorted : Argument.Sorted fields
  mem_iff : ∀ key x, (key, x) ∈ fields ↔ entries.reverse.lookup key = some x

theorem MapOf.unique {entries fields fields' : List (String × Argument)} (h : MapOf entries fields)
    (h' : MapOf entries fields') : fields = fields' :=
  h.sorted.ext h'.sorted fun p => (h.mem_iff p.1 p.2).trans (h'.mem_iff p.1 p.2).symm

theorem MapOf.exists_iff {entries fields : List (String × Argument)} (h : MapOf entries fields) {key : String} :
    (∃ x, (key, x) ∈ fields) ↔ ∃ e ∈ entries, key = e.1 := by
  have found : (entries.reverse.lookup key).isSome ↔ ∃ e ∈ entries, key = e.1 := by simp [List.lookup_isSome_iff]
  rw [← found, Option.isSome_iff_exists]
  exact exists_congr fun x => h.mem_iff key x

theorem mapOf_insertField (entries : List (String × Argument)) :
    MapOf entries (entries.foldl (fun t e => Argument.insertField e.1 e.2 t) []) := by
  induction entries using List.reverseRecOn with
  | nil => exact ⟨.nil, by simp⟩
  | append_singleton entries e ih =>
    obtain ⟨key, x⟩ := e
    rw [List.foldl_append]
    refine ⟨ih.sorted.insertField, fun key' y => ?_⟩
    show (key', y) ∈ Argument.insertField key x _ ↔ _
    rw [Argument.mem_insertField ih.sorted, ih.mem_iff, List.reverse_append, List.reverse_singleton,
      List.singleton_append, List.lookup_cons]
    by_cases same : key' = key
    · simp [same, eq_comm]
    · have differs : (key' == key) = false := beq_eq_false_iff_ne.mpr same
      simp [same, differs]

namespace Memory

variable {m : Memory} {a : Address} {v w : Value} {x : Argument} {bound : Nat} {path : List Address}
  {seen seen' : List Look}

/-! ### Unfolding -/

/-- A value unfolded. The items of a sequence are an array in their order, the pairs of another table a map. -/
inductive Unfolds (m : Memory) : Value → Argument → Prop
  | boolean (b : Bool) : m.Unfolds (.boolean b) (.boolean b)
  | integer (n : Int64) : m.Unfolds (.integer n) (.integer n)
  | number (x : Float) : m.Unfolds (.number x) (.number x)
  | string (s : String) : m.Unfolds (.string (Text.utf8 s)) (.string s)
  | items {a : Address} {xs : List Argument} (sequence : m.IsSequence a) (count : (m.items a).length = xs.length)
      (each : ∀ w x, (w, x) ∈ (m.items a).zip xs → m.Unfolds w x) : m.Unfolds (.table a) (.array xs)
  | pairs {a : Address} {entries fields : List (String × Argument)} (other : ¬m.IsSequence a)
      (count : (m.table a).pairs.length = entries.length)
      (keys : ∀ p e, (p, e) ∈ (m.table a).pairs.zip entries → p.1 = Key.text e.1)
      (each : ∀ p e, (p, e) ∈ (m.table a).pairs.zip entries → m.Unfolds p.2 e.2)
      (map : MapOf entries fields) : m.Unfolds (.table a) (.table fields)

/-- What an argument needs of a value, apart from its parts. -/
def Fit (m : Memory) : Value → Prop
  | .boolean _ => True
  | .integer _ => True
  | .number _ => True
  | .string s => ∃ text, s = Text.utf8 text
  | .table a => m.IsSequence a ∨ ∀ p ∈ (m.table a).pairs, ∃ key, p.1 = Key.text key
  | _ => False

theorem text_eq_ok {s : Bytes} {t : String} : text s = .ok t ↔ s = Text.utf8 t := by
  rw [text, textOr]
  constructor
  · intro h
    split at h
    · next read =>
      obtain rfl := Except.ok.inj h
      exact (Text.utf8_of_ofUtf8? read).symm
    · cases h
  · rintro rfl
    rw [Text.ofUtf8?_utf8]

theorem keyText_eq_ok {k : Key} {t : String} : keyText k = .ok t ↔ k = Key.text t := by
  cases k with
  | string s => rw [keyText, text_eq_ok, Key.text, Key.string.injEq]
  | _ => exact ⟨nofun, nofun⟩

theorem exists_mem_zip {α β : Type} {l : List α} {l' : List β} (count : l.length = l'.length) {a : α} (h : a ∈ l) :
    ∃ b, (a, b) ∈ l.zip l' := by
  obtain ⟨i, bound, rfl⟩ := List.mem_iff_getElem.mp h
  refine ⟨l'[i], List.mem_iff_getElem.mpr ⟨i, ?_, List.getElem_zip⟩⟩
  rw [List.length_zip]
  omega

theorem exists_forall₂ {α β : Type} {R : α → β → Prop} {l : List α} (h : ∀ a ∈ l, ∃ b, R a b) :
    ∃ bs, List.Forall₂ R l bs := by
  induction l with
  | nil => exact ⟨[], .nil⟩
  | cons a l ih =>
    obtain ⟨b, first⟩ := h a List.mem_cons_self
    obtain ⟨bs, rest⟩ := ih fun c hc => h c (List.mem_cons_of_mem a hc)
    exact ⟨b :: bs, .cons first rest⟩

/-- The parts of a value that is unfolded are unfolded, too, so that it is not among its own parts. -/
theorem Unfolds.acc (h : m.Unfolds v x) : Acc m.IsPart v := by
  induction h with
  | @items a xs sequence count _ ih =>
    refine ⟨_, fun w part => ?_⟩
    rw [IsPart, parts, if_pos sequence] at part
    obtain ⟨x, mem⟩ := exists_mem_zip count part
    exact ih w x mem
  | @pairs a entries fields other count _ _ _ ih =>
    refine ⟨_, fun w part => ?_⟩
    rw [IsPart, parts, if_neg other] at part
    obtain ⟨p, mem, rfl⟩ := List.mem_map.mp part
    obtain ⟨e, mem⟩ := exists_mem_zip count mem
    exact ih p e mem
  | _ => exact ⟨_, fun w part => absurd part List.not_mem_nil⟩

theorem Unfolds.acyclic (h : m.Unfolds v x) : ¬TransGen m.IsPart v v := by
  have acc := h.acc.transGen
  clear h
  induction acc with
  | intro w _ ih => exact fun cycle => ih w cycle cycle

theorem Unfolds.part (h : m.Unfolds v x) (part : m.IsPart w v) : ∃ y, m.Unfolds w y := by
  cases h with
  | @items a xs sequence count each =>
    rw [IsPart, parts, if_pos sequence] at part
    obtain ⟨x, mem⟩ := exists_mem_zip count part
    exact ⟨x, each w x mem⟩
  | @pairs a entries fields other count _ each _ =>
    rw [IsPart, parts, if_neg other] at part
    obtain ⟨p, mem, rfl⟩ := List.mem_map.mp part
    obtain ⟨e, mem⟩ := exists_mem_zip count mem
    exact ⟨e.2, each p e mem⟩
  | _ => exact absurd part List.not_mem_nil

theorem Unfolds.fit (h : m.Unfolds v x) : m.Fit v := by
  cases h with
  | string s => exact ⟨s, rfl⟩
  | items sequence => exact .inl sequence
  | pairs other count keys =>
    refine .inr fun p mem => ?_
    obtain ⟨e, mem⟩ := exists_mem_zip count mem
    exact ⟨e.1, keys p e mem⟩
  | _ => trivial

theorem Unfolds.inside (h : m.Unfolds v x) (reached : ReflTransGen m.IsPart w v) : ∃ y, m.Unfolds w y := by
  induction reached using ReflTransGen.head_induction_on with
  | refl => exact ⟨x, h⟩
  | head part _ ih =>
    obtain ⟨y, unfolds⟩ := ih
    exact unfolds.part part

theorem Unfolds.keys {fields : List (String × Argument)} (h : m.Unfolds (.table a) (.table fields)) (key : String) :
    (∃ x, (key, x) ∈ fields) ↔ ∃ w, (Key.text key, w) ∈ (m.table a).pairs := by
  cases h with
  | @pairs _ entries _ other count keys each map =>
    rw [map.exists_iff]
    constructor
    · rintro ⟨e, entry, rfl⟩
      obtain ⟨p, mem⟩ := exists_mem_zip count.symm entry
      have mem : (p, e) ∈ (m.table a).pairs.zip entries := by
        rw [← List.zip_swap]
        exact List.mem_map_of_mem mem
      exact ⟨p.2, keys p e mem ▸ (List.of_mem_zip mem).1⟩
    · rintro ⟨w, pair⟩
      obtain ⟨e, mem⟩ := exists_mem_zip count pair
      exact ⟨e, (List.of_mem_zip mem).2, Key.text_inj.mp (keys _ e mem)⟩

/-- A part of a table that is entered is inside of the tables that are open then. -/
theorem inside_of_part (inside : ∀ b ∈ path, TransGen m.IsPart (.table a) (.table b))
    (part : m.IsPart w (.table a)) : ∀ b ∈ a :: path, TransGen m.IsPart w (.table b) := by
  intro b mem
  rcases List.mem_cons.mp mem with rfl | earlier
  · exact .single part
  · exact .head part (inside b earlier)

/-! ### Results -/

theorem of_gives_leaf (leaf : ∀ a, v ≠ .table a) (h : (m.convertInside bound path v).Gives seen x seen') :
    m.Unfolds v x ∧ seen = seen' := by
  cases v with
  | boolean b =>
    rw [convertInside] at h
    obtain ⟨rfl, rfl⟩ := Conversion.gives_pure.mp h
    exact ⟨.boolean b, rfl⟩
  | integer n =>
    rw [convertInside] at h
    obtain ⟨rfl, rfl⟩ := Conversion.gives_pure.mp h
    exact ⟨.integer n, rfl⟩
  | number y =>
    rw [convertInside] at h
    obtain ⟨rfl, rfl⟩ := Conversion.gives_pure.mp h
    exact ⟨.number y, rfl⟩
  | string s =>
    rw [convertInside] at h
    obtain ⟨t, _, read, h⟩ := Conversion.gives_bind.mp h
    obtain ⟨rfl, rfl⟩ := Conversion.gives_pure.mp h
    obtain ⟨text, rfl⟩ := Conversion.gives_liftExcept.mp read
    rw [text_eq_ok.mp text]
    exact ⟨.string t, rfl⟩
  | table a => exact absurd rfl (leaf a)
  | _ =>
    rw [convertInside] at h
    exact absurd h Conversion.not_gives_throw

/-- What a conversion gives is the value unfolded. -/
theorem unfolds_of_gives (h : (m.convertInside bound path v).Gives seen x seen') : m.Unfolds v x := by
  induction bound generalizing path v x seen seen' with
  | zero =>
    cases v with
    | table a =>
      rw [convertInside] at h
      exact absurd h Conversion.not_gives_throw
    | _ => exact (of_gives_leaf (by simp) h).1
  | succ bound ih =>
    cases v with
    | table a =>
      obtain ⟨-, ⟨sequence, xs, rfl, each⟩ | ⟨other, entries, rfl, each⟩⟩ := gives_table.mp h
      · have unfolds : List.Forall₂ m.Unfolds (m.items a) xs := by
          refine List.forall₂_map_left_iff.mpr ((Conversion.gives_mapM each).imp fun i x given => ?_)
          obtain ⟨_, _, gives⟩ := given
          exact ih (gives_item.mp gives)
        exact .items sequence unfolds.length_eq fun w x mem => List.forall₂_zip unfolds mem
      · have unfolds : List.Forall₂ (fun p e => p.1 = Key.text e.1 ∧ m.Unfolds p.2 e.2) (m.table a).pairs entries := by
          refine (Conversion.gives_mapM each).imp fun p e given => ?_
          obtain ⟨_, _, gives⟩ := given
          obtain ⟨key, gives⟩ := gives_pair.mp gives
          exact ⟨keyText_eq_ok.mp key, ih gives⟩
        exact .pairs other unfolds.length_eq (fun p e mem => (List.forall₂_zip unfolds mem).1)
          (fun p e mem => (List.forall₂_zip unfolds mem).2) (mapOf_insertField entries)
    | _ => exact (of_gives_leaf (by simp) h).1

/-- A value that can be unfolded is converted wherever it is reached. -/
theorem Unfolds.converts (h : m.Unfolds v x) (deep : m.room path < bound)
    (inside : ∀ a ∈ path, TransGen m.IsPart v (.table a)) : m.Converts bound path v x := by
  induction h generalizing bound path with
  | @items a xs sequence count each ih =>
    have entered : a ∉ path := fun opened => (Unfolds.items sequence count each).acyclic (inside a opened)
    obtain _ | bound := bound
    · cases deep
    refine converts_sequence sequence entered (List.forall₂_iff_zip.mpr ⟨count, fun {w x} mem => ?_⟩)
    have part : m.IsPart w (.table a) := by
      rw [IsPart, parts, if_pos sequence]
      exact (List.of_mem_zip mem).1
    have less := room_cons entered part
    exact ih w x mem (by omega) (inside_of_part inside part)
  | @pairs a entries fields other count keys each map ih =>
    have entered : a ∉ path := fun opened => (Unfolds.pairs other count keys each map).acyclic (inside a opened)
    obtain _ | bound := bound
    · cases deep
    have fields_eq : fields = _ := map.unique (mapOf_insertField entries)
    rw [fields_eq]
    refine converts_pairs other entered (List.forall₂_iff_zip.mpr ⟨count, fun {p e} mem => ?_⟩)
    have part : m.IsPart p.2 (.table a) := pairs_part other (List.of_mem_zip mem).1
    have less := room_cons entered part
    exact ⟨keyText_eq_ok.mpr (keys p e mem), ih p e mem (by omega) (inside_of_part inside part)⟩
  | string s =>
    intro seen
    rw [convertInside]
    exact ⟨seen, Conversion.gives_bind.mpr ⟨s, seen, Conversion.gives_liftExcept.mpr ⟨text_eq_ok.mpr rfl, rfl⟩, rfl⟩⟩
  | _ =>
    intro seen
    rw [convertInside]
    exact ⟨seen, rfl⟩

/-- As long as no table is among its own parts, the tables that are open make room for a conversion. -/
theorem exists_unfolds (deep : m.room path < bound) (inside : ∀ a ∈ path, TransGen m.IsPart v (.table a))
    (fit : ∀ w, ReflTransGen m.IsPart w v → m.Fit w ∧ ¬TransGen m.IsPart w w) : ∃ x, m.Unfolds v x := by
  induction bound generalizing path v with
  | zero => cases deep
  | succ bound ih =>
    obtain ⟨own, acyclic⟩ := fit v .refl
    cases v with
    | boolean b => exact ⟨_, .boolean b⟩
    | integer n => exact ⟨_, .integer n⟩
    | number y => exact ⟨_, .number y⟩
    | string s =>
      obtain ⟨t, rfl⟩ := own
      exact ⟨_, .string t⟩
    | table a =>
      have entered : a ∉ path := fun opened => acyclic (inside a opened)
      have each {w : Value} (part : m.IsPart w (.table a)) : ∃ x, m.Unfolds w x := by
        have less := room_cons entered part
        exact ih (by omega) (inside_of_part inside part) fun u reached => fit u (reached.tail part)
      by_cases sequence : m.IsSequence a
      · have part {w : Value} (h : w ∈ m.items a) : m.IsPart w (.table a) := by
          rwa [IsPart, parts, if_pos sequence]
        obtain ⟨xs, unfolds⟩ := exists_forall₂ fun w h => each (part h)
        exact ⟨_, .items sequence unfolds.length_eq fun w x mem => List.forall₂_zip unfolds mem⟩
      · have keys := own.resolve_left sequence
        have entry : ∀ p ∈ (m.table a).pairs, ∃ e : String × Argument, p.1 = Key.text e.1 ∧ m.Unfolds p.2 e.2 := by
          intro p h
          obtain ⟨key, text⟩ := keys p h
          obtain ⟨x, unfolds⟩ := each (pairs_part sequence h)
          exact ⟨(key, x), text, unfolds⟩
        obtain ⟨entries, unfolds⟩ := exists_forall₂ entry
        exact ⟨_, .pairs sequence unfolds.length_eq (fun p e mem => (List.forall₂_zip unfolds mem).1)
          (fun p e mem => (List.forall₂_zip unfolds mem).2) (mapOf_insertField entries)⟩
    | _ => cases own

theorem convert_eq_ok : m.convert v = .ok x ↔ m.Unfolds v x := by
  constructor
  · intro h
    have gives : (m.conversion v).Gives [] x (Id.run ((m.conversion v).run.run [])).2 := Prod.ext h rfl
    exact unfolds_of_gives gives
  · intro h
    have deep : m.room [] < m.tables.size + 1 := Nat.lt_succ_of_le (m.room_le [])
    obtain ⟨seen', gives⟩ := h.converts deep (fun a opened => absurd opened List.not_mem_nil) []
    exact congrArg Prod.fst gives

/-- A conversion of any value in any memory comes to an end, and not because of the bound on its depth. It gives the
value unfolded if no table is reached from inside itself and all keys and leaves are what an argument can have, and
fails otherwise. Inside of whatever tables and after whatever looks a value is converted, the result is the same. -/
theorem conversion_unfolds (m : Memory) (v : Value) :
    WellFounded m.Asks ∧
    (∀ bound path, m.tables.size < bound →
      m.convertInside bound path v = m.convertInside (m.tables.size + 1) path v) ∧
    (∀ x, m.convert v = .ok x ↔ m.Unfolds v x) ∧
    ((∃ x, m.convert v = .ok x) ↔ ∀ w, ReflTransGen m.IsPart w v → m.Fit w ∧ ¬TransGen m.IsPart w w) ∧
    (∀ bound path seen x seen', (m.convertInside bound path v).Gives seen x seen' → m.convert v = .ok x) ∧
    ∀ a fields, m.convert (.table a) = .ok (.table fields) →
      ∀ key, (∃ x, (key, x) ∈ fields) ↔ ∃ w, (Key.text key, w) ∈ (m.table a).pairs := by
  have deep (path : List Address) : m.room path < m.tables.size + 1 := Nat.lt_succ_of_le (m.room_le path)
  refine ⟨wellFounded_asks m, fun bound path enough => ?_, fun x => convert_eq_ok, ⟨?_, fun fit => ?_⟩,
    fun _ _ _ _ _ gives => convert_eq_ok.mpr (unfolds_of_gives gives), fun a fields h => ?_⟩
  · exact convertInside_congr ((m.room_le path).trans_lt enough) (deep path) v
  · rintro ⟨x, h⟩ w reached
    obtain ⟨y, unfolds⟩ := (convert_eq_ok.mp h).inside reached
    exact ⟨unfolds.fit, unfolds.acyclic⟩
  · obtain ⟨x, unfolds⟩ := exists_unfolds (deep []) (fun a opened => absurd opened List.not_mem_nil) fit
    exact ⟨x, convert_eq_ok.mpr unfolds⟩
  · exact (convert_eq_ok.mp h).keys

end Memory

end Config

end Provisioning
