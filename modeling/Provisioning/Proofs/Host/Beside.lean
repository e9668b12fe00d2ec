import Provisioning.Proofs.Host.Lookup

/-! Paths beside a file. A path that starts with the directory that the text of a file's path shows leads where the same
path leads from the directory that the file lies in, as long as the file's path does not end in a link. -/

namespace Provisioning.Host

open FileSystem

/-! ### Directories of texts -/

/-- The steps of a path before its last part. -/
def outer (path : String) : List Step := (Text.splitOn '/' path.toList).dropLast.filterMap stepOf?

/-- A text for the directory that a path lies in. -/
structure IsDirectoryOf (directory path : String) : Prop where
  ne_empty : directory ≠ ""
  moves : moves (named directory.toList) = moves (outer path)
  absolute : Path.isAbsolute directory = Path.isAbsolute path
  no_nul : '\x00' ∉ path.toList → '\x00' ∉ directory.toList

theorem exists_parts (path : String) : ∃ before last, Text.splitOn '/' path.toList = before ++ [last] ∧
    outer path = before.filterMap stepOf? := by
  rcases List.eq_nil_or_concat (Text.splitOn '/' path.toList) with none | ⟨before, last, h⟩
  · exact absurd none (Text.splitOn_ne_nil _ _)
  · rw [List.concat_eq_append] at h
    refine ⟨before, last, h, ?_⟩
    rw [outer, h, List.dropLast_concat]

theorem exists_marked (path : String) : ∃ step, marked path.toList = outer path ++ [step] := by
  obtain ⟨before, last, h, eq⟩ := exists_parts path
  rw [eq]
  exact ⟨_, marked_of_parts h⟩

/-- The text of a path that ends in a name shows a directory, a bare name none. -/
theorem parent?_of_marked {path name : String} (h : marked path.toList = outer path ++ [.into name]) :
    ∃ directory, Path.parent? path = some directory ∧
      (directory ≠ "" → IsDirectoryOf directory path) ∧
      (directory = "" → IsDirectoryOf "." path ∧ Path.isAbsolute path = false) := by
  obtain ⟨before, last, parts, eq⟩ := exists_parts path
  have step : stepOf? last = some (.into name) := by
    rw [marked_of_parts parts, eq] at h
    have same := List.append_cancel_left h
    cases found : stepOf? last with
    | none =>
      rw [found] at same
      cases same
    | some step =>
      rw [found] at same
      cases same
      rfl
  have full : Path.isVoid last = false := by
    by_contra void
    simp only [Path.isVoid, Bool.or_eq_false_iff, beq_eq_false_iff_ne, not_and_or, not_not] at void
    rcases void with rfl | rfl <;> cases step
  obtain ⟨directory, found, starts, moves, bare⟩ := Path.parent?_of_parts parts full
  rw [← eq] at moves
  refine ⟨directory, found, fun ne => ?_, fun empty => ?_⟩
  · exact ⟨ne, moves, (Path.isAbsolute_of_prefix ne starts).symm, fun none nul => none (starts.subset nul)⟩
  · rw [empty] at moves
    exact ⟨⟨by decide, moves, (bare empty).symm, fun _ => by decide⟩, bare empty⟩

/-- An error that tells of a limit of the look-up and not of what lies where. -/
def IoError.IsLimit (e : IoError) : Prop := e = .tooManyLinks ∨ e = .nameTooLong

/-! ### Paths below a directory -/

/-- A path without steps is the root, where staying leads nowhere else. -/
theorem FileSystem.walk_steps (fs : FileSystem) (follow : Bool) (k : Nat) (dir : Location) (path : String) :
    fs.walk follow k dir (steps path) = fs.walk follow k dir (marked path.toList) := by
  rw [steps_eq]
  split
  · next none =>
    have still : marked path.toList = [.stay] := by
      have full := marked_ne_nil path.toList
      rw [marked, none] at full ⊢
      split
      · rfl
      · next plain => simp [plain] at full
    rw [still, walk.eq_2]
  · rfl

namespace Machine

variable {m : Machine} {path directory part : String} {loc dir : Location} {content : List UInt8}

theorem walk_beside (h : IsDirectoryOf directory path) (relative : Path.isAbsolute part = false) (k : Nat) :
    m.files.walk true k (m.origin (Path.join directory part)) (steps (Path.join directory part)) =
      m.files.walk true k (m.origin path) (outer path ++ marked part.toList) := by
  rw [walk_steps, Path.marked_join relative, origin_join h.ne_empty relative, origin_congr h.absolute]
  exact walk_congr_moves h.moves (marked_ne_nil _)

/-- The path of a file that is no link ends in the file's name, behind a way to its directory. -/
theorem WellFormed.file_beside (h : m.WellFormed) (located : m.locate false path = .ok ⟨loc, some (.file content)⟩) :
    ∃ dir name, loc = dir ++ [name] ∧ m.files.entry? loc = some (.file content) ∧
      marked path.toList = outer path ++ [.into name] ∧
      ∃ k ≤ maxLinks, ∀ follow ys, ys ≠ [] →
        m.files.walk follow maxLinks (m.origin path) (outer path ++ ys) = m.files.walk follow k dir ys := by
  have start := h.origin path
  obtain ⟨step, eq⟩ := exists_marked path
  obtain ⟨k, le, parts⟩ := h.files.walk_append start (outer path)
  rw [locate_of_isPath (isPath_of_locate located), walk_steps, eq, parts false _ (List.cons_ne_nil _ _)] at located
  obtain ⟨dir, led, went⟩ := goOn_eq_ok_iff.mp located
  have inside := walk_entry led
  have onward (follow : Bool) (ys : List Step) (ne : ys ≠ []) :
      m.files.walk follow maxLinks (m.origin path) (outer path ++ ys) = m.files.walk follow k dir ys := by
    rw [parts follow ys ne, led, goOn, if_pos rfl]
  cases step with
  | stay =>
    rw [walk, walk_nil inside] at went
    cases went
  | up =>
    rw [walk, walk_nil (h.files.dropLast inside)] at went
    cases went
  | into name =>
    obtain ⟨rfl, lies⟩ := Place.mk.inj (eq_of_walk_into went)
    exact ⟨dir, name, rfl, lies.symm, eq, k, le, onward⟩

/-! ### Absolute paths -/

theorem toList_pathOf (loc : Location) : (pathOf loc).toList = '/' :: Path.ofParts (loc.map String.toList) := by
  have parts (loc : Location) : ("/".intercalate loc).toList = Path.ofParts (loc.map String.toList) := by
    induction loc with
    | nil => rfl
    | cons name loc ih =>
      cases loc with
      | nil => simp [Path.ofParts]
      | cons second loc =>
        have more : (second :: loc).map String.toList ≠ [] := by simp
        rw [String.intercalate_cons_cons, String.toList_append, String.toList_append, ih, List.map_cons (l := second :: loc),
          Path.ofParts_cons more, List.append_assoc]
        rfl
  rw [pathOf, String.toList_append, parts]
  rfl

theorem no_nul_pathOf (proper : ∀ n ∈ loc, IsName n) : '\x00' ∉ (pathOf loc).toList := by
  intro nul
  rw [toList_pathOf, List.mem_cons] at nul
  obtain slash | inside := nul
  · cases slash
  · obtain slash | ⟨part, hp, mem⟩ := Path.mem_ofParts inside
    · cases slash
    · obtain ⟨n, hn, rfl⟩ := List.mem_map.mp hp
      exact (proper n hn).no_nul mem

/-- The absolute path of an entry, with the names on the way to it as its steps. -/
theorem marked_pathOf {name : String} (proper : ∀ n ∈ dir ++ [name], IsName n) :
    outer (pathOf (dir ++ [name])) = dir.map .into ∧
      marked (pathOf (dir ++ [name])).toList = outer (pathOf (dir ++ [name])) ++ [.into name] := by
  have plain : ∀ part ∈ (dir ++ [name]).map String.toList, '/' ∉ part := by
    intro part hp
    obtain ⟨n, hn, rfl⟩ := List.mem_map.mp hp
    exact (proper n hn).no_slash
  have parts : Text.splitOn '/' (pathOf (dir ++ [name])).toList = ([] :: dir.map String.toList) ++ [name.toList] := by
    rw [toList_pathOf, Text.splitOn, if_pos rfl, Path.splitOn_ofParts (by simp) plain, List.map_append]
    rfl
  have outside : outer (pathOf (dir ++ [name])) = (dir.map String.toList).filterMap stepOf? := by
    rw [outer, parts, List.dropLast_concat]
    rfl
  constructor
  · rw [outside, List.filterMap_map]
    have into : ∀ n ∈ dir, (stepOf? ∘ String.toList) n = some (.into n) :=
      fun n hn => (proper n (List.mem_append_left _ hn)).step
    rw [List.filterMap_congr into]
    exact congrFun List.filterMap_eq_map dir
  · rw [outside, marked_of_parts parts, (proper name (by simp)).step]
    rfl

/-- A path that is looked up is replaced by that of the place that it leads to. -/
theorem canonicalPath_of_locate {e : Entry} (located : m.locate true path = .ok ⟨loc, some e⟩) :
    m.canonicalPath path = (checkLength (pathOf loc)).map fun _ => pathOf loc := by
  have isPath := isPath_of_locate located
  have led : m.lead true path (steps path) = .ok ⟨loc, some e⟩ := by
    rw [locate_of_isPath isPath] at located
    simp only [lead, List.contains_iff_mem, isPath.no_nul, if_false, String.isEmpty_iff, isPath.ne_empty]
    exact located
  rw [canonicalPath, led]
  change (do checkLength (pathOf loc); return pathOf loc) = _
  cases checkLength (pathOf loc) <;> rfl

theorem WellFormed.locate_follow (h : m.WellFormed) (located : m.locate false path = .ok ⟨loc, some (.file content)⟩) :
    m.locate true path = .ok ⟨loc, some (.file content)⟩ := by
  obtain ⟨dir, name, rfl, lies, eq, k, -, onward⟩ := h.file_beside located
  rw [locate_of_isPath (isPath_of_locate located), walk_steps, eq, onward true _ (List.cons_ne_nil _ _),
    walk_into (h.files.short lies) (by simp [lies]), lies]

theorem WellFormed.canonicalPath_eq (h : m.WellFormed)
    (located : m.locate false path = .ok ⟨loc, some (.file content)⟩) {file : String}
    (canonical : m.canonicalPath path = .ok file) : file = pathOf loc := by
  rw [canonicalPath_of_locate (h.locate_follow located)] at canonical
  cases checked : checkLength (pathOf loc) with
  | error e =>
    rw [checked] at canonical
    cases canonical
  | ok _ =>
    rw [checked] at canonical
    exact (Except.ok.inj canonical).symm

theorem origin_pathOf (m : Machine) (loc : Location) : m.origin (pathOf loc) = [] := by
  have absolute : Path.isAbsolute (pathOf loc) = true := by
    rw [Path.isAbsolute, toList_pathOf]
    rfl
  rw [origin, if_pos absolute]

/-! ### Both at once -/

theorem find_eq_of_locate {other : String} (h : m.locate true path = m.locate true other) : m.find path = m.find other := by
  rw [find, find, h]

theorem find_eq_error {e : IoError} (h : m.locate true path = .error e) : m.find path = .error e := by
  rw [find, h]

/-- Seen from the directory of a file's path or from that of its absolute path, a path leads to the same place, unless one
of the two look-ups comes to a limit. -/
theorem WellFormed.find_beside (h : m.WellFormed) (located : m.locate false path = .ok ⟨loc, some (.file content)⟩)
    {directory' : String} (here : IsDirectoryOf directory path) (there : IsDirectoryOf directory' (pathOf loc))
    (relative : Path.isAbsolute part = false) :
    m.find (Path.join directory part) = m.find (Path.join directory' part) ∨
      ∃ e : IoError, e.IsLimit ∧
        (m.find (Path.join directory part) = .error e ∨ m.find (Path.join directory' part) = .error e) := by
  obtain ⟨dir, name, rfl, lies, -, k, le, onward⟩ := h.file_beside located
  have proper : ∀ n ∈ dir ++ [name], IsName n := fun n hn => (h.files.names lies n hn).1
  have nul : '\x00' ∈ (Path.join directory part).toList ↔ '\x00' ∈ part.toList := by
    rw [Path.mem_join here.ne_empty relative (by decide)]
    exact or_iff_right (here.no_nul (isPath_of_locate located).no_nul)
  have nul' : '\x00' ∈ (Path.join directory' part).toList ↔ '\x00' ∈ part.toList := by
    rw [Path.mem_join there.ne_empty relative (by decide)]
    exact or_iff_right (there.no_nul (no_nul_pathOf proper))
  have led : m.files.walk true maxLinks (m.origin (Path.join directory part)) (steps (Path.join directory part)) =
      m.files.walk true k dir (marked part.toList) := by
    rw [walk_beside here relative, onward true _ (marked_ne_nil _)]
  have led' (k : Nat) : m.files.walk true k (m.origin (Path.join directory' part)) (steps (Path.join directory' part)) =
      m.files.walk true k dir (marked part.toList) := by
    rw [walk_beside there relative, (marked_pathOf proper).1, origin_pathOf, h.files.walk_down (h.files.parent lies)]
    rfl
  by_cases none : '\x00' ∈ part.toList
  · left
    refine find_eq_of_locate ?_
    rw [locate_eq, locate_eq, if_pos (nul.mpr none), if_pos (nul'.mpr none)]
  · rw [← nul] at none
    have none' := none
    rw [nul, ← nul'] at none'
    by_cases long : maxPath < (Path.join directory part).utf8ByteSize
    · refine .inr ⟨.nameTooLong, .inr rfl, .inl (find_eq_error ?_)⟩
      rw [locate_eq, if_neg none, if_pos long]
    · by_cases long' : maxPath < (Path.join directory' part).utf8ByteSize
      · refine .inr ⟨.nameTooLong, .inr rfl, .inr (find_eq_error ?_)⟩
        rw [locate_eq, if_neg none', if_pos long']
      · have full := Path.join_ne_empty here.ne_empty relative
        have full' := Path.join_ne_empty there.ne_empty relative
        by_cases many : m.files.walk true k dir (marked part.toList) = .error .tooManyLinks
        · refine .inr ⟨.tooManyLinks, .inl rfl, .inl (find_eq_error ?_)⟩
          rw [locate_eq, if_neg none, if_neg long, if_neg full, led, many]
        · left
          refine find_eq_of_locate ?_
          -- The absolute path has followed no links on the way to the file's directory, so it has more of them left.
          have more := walk_more_links rfl many (maxLinks - k)
          rw [Nat.add_sub_cancel' le] at more
          rw [locate_eq, locate_eq, if_neg none, if_neg long, if_neg full, if_neg none', if_neg long', if_neg full', led,
            led', more]

end Machine

end Provisioning.Host
