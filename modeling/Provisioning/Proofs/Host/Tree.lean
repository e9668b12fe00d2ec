import Mathlib.Data.List.Nodup
import Provisioning.Proofs.Host.Steps

/-! File systems as trees. Each entry has a name and lies in a directory, and no location has two entries, so that what
a directory holds is what the locations right below it hold, in whatever order the entries are kept. -/

namespace Provisioning.Host

namespace FileSystem

variable {fs : FileSystem} {loc : Location} {name : String} {e : Entry}

/-- The entries make up a tree. -/
structure WellFormed (fs : FileSystem) : Prop where
  distinct : (fs.entries.map Prod.fst).Nodup
  proper : ∀ p ∈ fs.entries, p.1 ≠ [] ∧ ∀ name ∈ p.1, IsName name ∧ name.utf8ByteSize ≤ maxName
  rooted : ∀ p ∈ fs.entries, fs.entry? p.1.dropLast = some .directory

instance (fs : FileSystem) : Decidable fs.WellFormed :=
  decidable_of_iff ((fs.entries.map Prod.fst).Nodup ∧
      (∀ p ∈ fs.entries, p.1 ≠ [] ∧ ∀ name ∈ p.1, IsName name ∧ name.utf8ByteSize ≤ maxName) ∧
      ∀ p ∈ fs.entries, fs.entry? p.1.dropLast = some .directory)
    ⟨fun ⟨a, b, c⟩ => ⟨a, b, c⟩, fun h => ⟨h.1, h.2, h.3⟩⟩

@[simp] theorem entry?_root (fs : FileSystem) : fs.entry? [] = some .directory := rfl

theorem entry?_of_ne (fs : FileSystem) (h : loc ≠ []) : fs.entry? loc = fs.entries.lookup loc := if_neg h

theorem lookup_eq_some_iff {entries : List (Location × Entry)} (distinct : (entries.map Prod.fst).Nodup) :
    entries.lookup loc = some e ↔ (loc, e) ∈ entries := by
  induction entries with
  | nil => simp
  | cons p rest ih =>
    obtain ⟨l, e'⟩ := p
    rw [List.map_cons, List.nodup_cons] at distinct
    obtain ⟨fresh, distinct⟩ := distinct
    by_cases same : loc = l
    · subst same
      have absent : (loc, e) ∉ rest := fun h => fresh (List.mem_map.mpr ⟨_, h, rfl⟩)
      simp [absent, eq_comm]
    · have other : (loc == l) = false := beq_false_of_ne same
      rw [List.lookup_cons, other, ih distinct]
      simp [same]

namespace WellFormed

theorem entry?_eq_some_iff (h : fs.WellFormed) (ne : loc ≠ []) : fs.entry? loc = some e ↔ (loc, e) ∈ fs.entries := by
  rw [fs.entry?_of_ne ne, lookup_eq_some_iff h.distinct]

theorem names (h : fs.WellFormed) (found : fs.entry? loc = some e) :
    ∀ name ∈ loc, IsName name ∧ name.utf8ByteSize ≤ maxName := by
  by_cases root : loc = []
  · simp [root]
  · exact (h.proper _ ((h.entry?_eq_some_iff root).mp found)).2

theorem isName (h : fs.WellFormed) (found : fs.entry? (loc ++ [name]) = some e) : IsName name :=
  (h.names found name (by simp)).1

theorem short (h : fs.WellFormed) (found : fs.entry? (loc ++ [name]) = some e) : name.utf8ByteSize ≤ maxName :=
  (h.names found name (by simp)).2

theorem parent (h : fs.WellFormed) (found : fs.entry? (loc ++ [name]) = some e) : fs.entry? loc = some .directory := by
  have mem := (h.entry?_eq_some_iff (List.concat_ne_nil _ _)).mp found
  simpa using h.rooted _ mem

theorem dropLast (h : fs.WellFormed) (found : fs.entry? loc = some e) :
    fs.entry? loc.dropLast = some .directory := by
  rcases List.eq_nil_or_concat loc with rfl | ⟨dir, name, rfl⟩
  · rfl
  · rw [List.concat_eq_append] at found ⊢
    rw [List.dropLast_concat]
    exact h.parent found

theorem mem_children (h : fs.WellFormed) : (name, e) ∈ fs.children loc ↔ fs.entry? (loc ++ [name]) = some e := by
  rw [h.entry?_eq_some_iff (List.concat_ne_nil _ _), children, List.mem_filterMap]
  constructor
  · rintro ⟨⟨l, e'⟩, mem, eq⟩
    rcases List.eq_nil_or_concat l with rfl | ⟨dir, last, rfl⟩
    · cases eq
    · rw [List.concat_eq_append] at mem eq
      simp only [List.getLast?_concat, List.dropLast_concat] at eq
      split at eq
      · next same =>
        cases eq
        rwa [← same]
      · cases eq
  · intro mem
    exact ⟨_, mem, by simp⟩

end WellFormed

/-- It does not matter in which order the entries are kept. -/
theorem WellFormed.entry?_of_perm {fs' : FileSystem} (h : fs.WellFormed) (perm : fs'.entries.Perm fs.entries)
    (loc : Location) : fs'.entry? loc = fs.entry? loc := by
  by_cases root : loc = []
  · rw [root, entry?_root, entry?_root]
  · have distinct : (fs'.entries.map Prod.fst).Nodup := (perm.map _).nodup_iff.mpr h.distinct
    ext e
    rw [fs'.entry?_of_ne root, lookup_eq_some_iff distinct, h.entry?_eq_some_iff root, perm.mem_iff]

theorem children_perm {fs' : FileSystem} (h : fs'.entries.Perm fs.entries) (loc : Location) :
    (fs'.children loc).Perm (fs.children loc) := h.filterMap _

/-- The name of a location that is right below another. -/
def nameBelow? (loc below : Location) : Option String := if below.dropLast = loc then below.getLast? else none

theorem nameBelow?_eq_some_iff {below : Location} : nameBelow? loc below = some name ↔ below = loc ++ [name] := by
  unfold nameBelow?
  constructor
  · intro h
    split at h
    · next same =>
      rw [← same]
      exact (List.dropLast_append_getLast? _ h).symm
    · cases h
  · rintro rfl
    simp

theorem map_fst_children (fs : FileSystem) (loc : Location) :
    (fs.children loc).map Prod.fst = (fs.entries.map Prod.fst).filterMap (nameBelow? loc) := by
  rw [children, List.map_filterMap, List.filterMap_map]
  congr 1
  funext ⟨l, e⟩
  simp only [Function.comp_apply, nameBelow?]
  split
  · next found =>
    rw [found]
    split <;> rfl
  · next none =>
    rw [none]
    simp

theorem WellFormed.children_nodup (h : fs.WellFormed) (loc : Location) :
    ((fs.children loc).map Prod.fst).Nodup := by
  rw [map_fst_children]
  refine h.distinct.filterMap fun l l' name here there => ?_
  rw [nameBelow?_eq_some_iff.mp here, nameBelow?_eq_some_iff.mp there]

end FileSystem

end Provisioning.Host
