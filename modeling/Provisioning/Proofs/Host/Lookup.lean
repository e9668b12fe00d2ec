import Provisioning.Proofs.Host.Walk

/-! Look-ups of path texts. A name joined to the path of a directory leads to the entry of that name there, and to
nothing else unless a link is followed. -/

namespace Provisioning.Host

open FileSystem

/-- A path text that the host looks up. -/
structure IsPath (path : String) : Prop where
  ne_empty : path ≠ ""
  no_nul : '\x00' ∉ path.toList
  short : path.utf8ByteSize ≤ maxPath

namespace IsPath

variable {base part name : String}

theorem join (h : IsPath base) (proper : IsName name) (short : (Path.join base name).utf8ByteSize ≤ maxPath) :
    IsPath (Path.join base name) where
  ne_empty := Path.join_ne_empty h.ne_empty proper.relative
  no_nul := by
    rw [Path.mem_join h.ne_empty proper.relative (by decide)]
    exact not_or.mpr ⟨h.no_nul, proper.no_nul⟩
  short := short

theorem of_starts {path : String} (h : IsPath path) (ne : base ≠ "") (starts : base.toList <+: path.toList) :
    IsPath base where
  ne_empty := ne
  no_nul := fun nul => h.no_nul (starts.subset nul)
  short := by
    obtain ⟨more, eq⟩ := starts
    have whole : path = base ++ String.ofList more := by
      rw [← String.toList_inj, String.toList_append, String.toList_ofList, eq]
    have short := h.short
    rw [whole, String.utf8ByteSize_append] at short
    omega

theorem of_join (h : IsPath (Path.join base part)) (ne : base ≠ "") (relative : Path.isAbsolute part = false) :
    IsPath base := h.of_starts ne (Path.prefix_join ne relative)

end IsPath

namespace Machine

variable {m : Machine} {follow : Bool} {path base part name : String} {loc dir : Location} {e : Entry}

/-- The files make up a tree, and the working directory is one of its directories. -/
structure WellFormed (m : Machine) : Prop where
  files : m.files.WellFormed
  here : m.files.entry? m.workingDirectory = some .directory

instance (m : Machine) : Decidable m.WellFormed :=
  decidable_of_iff (m.files.WellFormed ∧ m.files.entry? m.workingDirectory = some .directory)
    ⟨fun ⟨files, here⟩ => ⟨files, here⟩, fun h => ⟨h.files, h.here⟩⟩

/-- Where the steps of a path start. -/
def origin (m : Machine) (path : String) : Location := if Path.isAbsolute path then [] else m.workingDirectory

theorem WellFormed.origin (h : m.WellFormed) (path : String) :
    m.files.entry? (m.origin path) = some .directory := by
  unfold Machine.origin
  split
  · rfl
  · exact h.here

theorem origin_congr (same : Path.isAbsolute path = Path.isAbsolute base) : m.origin path = m.origin base := by
  rw [origin, origin, same]

theorem origin_join (ne : base ≠ "") (relative : Path.isAbsolute part = false) :
    m.origin (Path.join base part) = m.origin base := origin_congr (Path.isAbsolute_join ne relative)

theorem locate_eq (m : Machine) (follow : Bool) (path : String) : m.locate follow path =
    if '\x00' ∈ path.toList then .error .nulInPath
    else if maxPath < path.utf8ByteSize then .error .nameTooLong
    else if path = "" then .error .notFound
    else m.files.walk follow maxLinks (m.origin path) (steps path) := by
  by_cases nul : '\x00' ∈ path.toList
  · have checked : checkLength path = .ok () := by simp [checkLength, nul]
    have led : m.lead follow path (steps path) = .error .nulInPath := by simp [lead, nul]
    rw [if_pos nul, locate, checked, led]
    rfl
  · rw [if_neg nul]
    by_cases long : maxPath < path.utf8ByteSize
    · have checked : checkLength path = .error .nameTooLong := by simp [checkLength, nul, long]
      rw [if_pos long, locate, checked]
      rfl
    · have checked : checkLength path = .ok () := by simp [checkLength, long]
      rw [if_neg long, locate, checked]
      by_cases empty : path = ""
      · have led : m.lead follow path (steps path) = .error .notFound := by simp [lead, empty]
        rw [if_pos empty, led]
        rfl
      · have led : m.lead follow path (steps path) =
            m.files.walk follow maxLinks (m.origin path) (steps path) := by simp [lead, nul, empty, origin]
        rw [if_neg empty, led]
        rfl

theorem locate_of_isPath (h : IsPath path) :
    m.locate follow path = m.files.walk follow maxLinks (m.origin path) (steps path) := by
  rw [locate_eq, if_neg h.no_nul, if_neg (Nat.not_lt.mpr h.short), if_neg h.ne_empty]

theorem of_lead {xs : List Step} {p : Place} (led : m.lead follow path xs = .ok p) :
    path ≠ "" ∧ '\x00' ∉ path.toList ∧ m.files.walk follow maxLinks (m.origin path) xs = .ok p := by
  rw [lead] at led
  split at led
  · cases led
  · next plain =>
    split at led
    · cases led
    · next full =>
      rw [List.contains_iff_mem] at plain
      exact ⟨by simpa using full, plain, led⟩

theorem short_of_checkLength (checked : checkLength path = .ok ()) (plain : '\x00' ∉ path.toList) :
    path.utf8ByteSize ≤ maxPath := by
  by_contra long
  rw [checkLength, if_pos (by simp [Nat.not_le.mp long, plain])] at checked
  cases checked

theorem isPath_of_locate {p : Place} (h : m.locate follow path = .ok p) : IsPath path := by
  rw [locate_eq] at h
  split at h
  · cases h
  · next nul =>
    split at h
    · cases h
    · next short =>
      split at h
      · cases h
      · next full => exact ⟨full, nul, Nat.not_lt.mp short⟩

theorem find_eq_ok_iff : m.find path = .ok (loc, e) ↔ m.locate true path = .ok ⟨loc, some e⟩ := by
  unfold find
  constructor
  · intro h
    split at h
    · cases h
    · cases h
    · next found =>
      cases h
      exact found
  · intro h
    rw [h]

theorem find_congr {fs : FileSystem} (same : ∀ loc, fs.entry? loc = m.files.entry? loc) (path : String) :
    { m with files := fs }.find path = m.find path := by
  have located : { m with files := fs }.locate true path = m.locate true path := by
    rw [locate_eq, locate_eq]
    simp only [walk_congr same]
    rfl
  rw [find, find, located]

theorem list_eq_ok_iff {inside : List (String × Entry)} : m.list path = .ok inside ↔
    ∃ dir, m.find path = .ok (dir, .directory) ∧ inside = m.files.children dir := by
  unfold list
  constructor
  · intro h
    split at h
    · cases h
    · next dir found =>
      cases h
      exact ⟨dir, found, rfl⟩
    · cases h
  · rintro ⟨dir, found, rfl⟩
    rw [found]

/-- A slash at the end of a path to a directory makes no difference. -/
theorem WellFormed.find_directory_iff (h : m.WellFormed) : m.find path = .ok (dir, .directory) ↔
    IsPath path ∧ m.files.walk true maxLinks (m.origin path) (named path.toList) = .ok ⟨dir, some .directory⟩ := by
  have same : m.files.walk true maxLinks (m.origin path) (steps path) = .ok ⟨dir, some .directory⟩ ↔
      m.files.walk true maxLinks (m.origin path) (named path.toList) = .ok ⟨dir, some .directory⟩ := by
    rcases steps_cases path with plain | slash
    · rw [plain]
    · obtain ⟨k, -, parts⟩ := h.files.walk_append (h.origin path) (named path.toList)
      rw [slash, parts true [.stay] (List.cons_ne_nil _ _), goOn_eq_ok_iff]
      constructor
      · rintro ⟨dir', led, went⟩
        rw [walk, walk] at went
        obtain ⟨rfl, -⟩ := Place.mk.inj (Except.ok.inj went)
        exact led
      · intro led
        refine ⟨dir, led, ?_⟩
        rw [walk]
        exact walk_nil (walk_entry led)
  rw [find_eq_ok_iff]
  constructor
  · intro found
    have isPath := isPath_of_locate found
    rw [locate_of_isPath isPath, same] at found
    exact ⟨isPath, found⟩
  · rintro ⟨isPath, found⟩
    rw [locate_of_isPath isPath, same]
    exact found

/-- The entry of a directory that has a name, found by the directory's path and the name. -/
theorem WellFormed.locate_join (h : m.WellFormed) (found : m.find base = .ok (dir, .directory))
    (lies : m.files.entry? (dir ++ [name]) = some e) (short : (Path.join base name).utf8ByteSize ≤ maxPath)
    (plain : follow = true → ∀ target, e ≠ .link target) :
    m.locate follow (Path.join base name) = .ok ⟨dir ++ [name], some e⟩ := by
  obtain ⟨isPath, led⟩ := h.find_directory_iff.mp found
  have proper := h.files.isName lies
  have ne := isPath.ne_empty
  obtain ⟨k, -, parts⟩ := h.files.walk_append (h.origin base) (named base.toList)
  rw [locate_of_isPath (isPath.join proper short), origin_join ne proper.relative, proper.steps_join base,
    parts follow _ (List.cons_ne_nil _ _), led, goOn, if_pos rfl, walk_into (h.files.short lies), lies]
  intro on target eq
  rw [lies] at eq
  exact plain on target (Option.some.inj eq)

theorem WellFormed.of_locate_join (h : m.WellFormed) (ne : base ≠ "") (proper : IsName name)
    (located : m.locate false (Path.join base name) = .ok ⟨loc, some e⟩) :
    ∃ dir, m.find base = .ok (dir, .directory) ∧ loc = dir ++ [name] ∧ m.files.entry? loc = some e := by
  have isPath := isPath_of_locate located
  obtain ⟨k, -, parts⟩ := h.files.walk_append (h.origin base) (named base.toList)
  rw [locate_of_isPath isPath, origin_join ne proper.relative, proper.steps_join base,
    parts false _ (List.cons_ne_nil _ _)] at located
  obtain ⟨dir, led, went⟩ := goOn_eq_ok_iff.mp located
  obtain ⟨rfl, lies⟩ := Place.mk.inj (eq_of_walk_into went)
  exact ⟨dir, h.find_directory_iff.mpr ⟨isPath.of_join ne proper.relative, led⟩, rfl, lies.symm⟩

end Machine

end Provisioning.Host
