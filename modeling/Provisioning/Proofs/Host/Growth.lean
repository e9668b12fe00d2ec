import Provisioning.Proofs.Host.Lookup

/-! Machines that gain directories. What lay somewhere lies there afterwards, and the new entries are directories, each
of which some path leads to. A path that has led to an entry still leads to it. -/

namespace Provisioning.Host

namespace FileSystem

variable {fs fs' : FileSystem} {k : Nat} {dir loc : Location} {step : Step} {xs : List Step} {name : String}
  {e : Entry}

/-! ### One entry more -/

theorem entry?_put_self (fs : FileSystem) (ne : loc ≠ []) (e : Entry) : entry? (fs.put loc e) loc = some e := by
  rw [entry?_of_ne _ ne, put, List.lookup_cons_self]

theorem entry?_put_of_ne (fs : FileSystem) {other : Location} (ne : other ≠ loc) (e : Entry) :
    entry? (fs.put loc e) other = fs.entry? other := by
  by_cases root : other = []
  · rw [root, entry?_root, entry?_root]
  · have apart : (other == loc) = false := beq_false_of_ne ne
    rw [entry?_of_ne _ root, entry?_of_ne _ root, put, List.lookup_cons, apart]
    dsimp only
    induction fs.entries with
    | nil => rfl
    | cons p rest ih =>
      obtain ⟨l, e'⟩ := p
      by_cases here : l = loc
      · rw [here, List.filter_cons_of_neg (by simp), List.lookup_cons, apart]
        exact ih
      · rw [List.filter_cons_of_pos (by simpa using here), List.lookup_cons, List.lookup_cons, ih]

theorem ne_nil_of_none (none : fs.entry? loc = none) : loc ≠ [] := by
  rintro rfl
  cases none

theorem entries_put (none : fs.entry? loc = none) (e : Entry) : (fs.put loc e).entries = (loc, e) :: fs.entries := by
  rw [entry?_of_ne _ (ne_nil_of_none none), List.lookup_eq_none_iff] at none
  rw [put, List.filter_eq_self.mpr]
  exact fun p hp => decide_eq_true (bne_iff_ne.mp (none p hp)).symm

/-- A new directory in a directory of the tree. -/
theorem WellFormed.put_directory (h : fs.WellFormed) (inside : fs.entry? dir = some .directory)
    (none : fs.entry? (dir ++ [name]) = none) (proper : IsName name) (short : name.utf8ByteSize ≤ maxName) :
    (fs.put (dir ++ [name]) .directory).WellFormed := by
  have kept {other : Location} (found : fs.entry? other = some .directory) :
      entry? (fs.put (dir ++ [name]) .directory) other = some .directory := by
    rw [entry?_put_of_ne fs _ .directory]
    · exact found
    · rintro rfl
      rw [none] at found
      cases found
  refine ⟨?_, ?_, ?_⟩ <;> rw [entries_put none]
  · refine List.nodup_cons.mpr ⟨fun known => ?_, h.distinct⟩
    obtain ⟨⟨l, e⟩, hp, eq⟩ := List.mem_map.mp known
    obtain rfl : l = dir ++ [name] := eq
    rw [(h.entry?_eq_some_iff (List.concat_ne_nil _ _)).mpr hp] at none
    cases none
  · refine List.forall_mem_cons.mpr ⟨⟨List.concat_ne_nil _ _, fun n hn => ?_⟩, h.proper⟩
    rcases List.mem_append.mp hn with above | last
    · exact h.names inside n above
    · exact List.mem_singleton.mp last ▸ ⟨proper, short⟩
  · refine List.forall_mem_cons.mpr ⟨?_, fun p hp => kept (h.rooted p hp)⟩
    rw [List.dropLast_concat]
    exact kept inside

/-- What lies below a location lies in an entry of it. -/
theorem WellFormed.exists_above (h : fs.WellFormed) (below : Location) (found : fs.entry? (loc ++ below) = some e) :
    ∃ e', fs.entry? loc = some e' := by
  induction below using List.reverseRecOn generalizing e with
  | nil => exact ⟨e, by rwa [List.append_nil] at found⟩
  | append_singleton below name ih =>
    rw [← List.append_assoc] at found
    exact ih (h.parent found)

/-! ### Ways that stay -/

/-- The directories and the links of the first file system are in the second one. -/
def WaysIn (fs fs' : FileSystem) : Prop :=
  ∀ loc e, fs.entry? loc = some e → (∀ content, e ≠ .file content) → fs'.entry? loc = some e

theorem turn_leads_in (ways : fs.WaysIn fs') {k' : Nat} {dir' : Location} {more : List Step}
    (h : fs.turn k dir step = .leads k' dir' more) : fs'.turn k dir step = .leads k' dir' more := by
  cases step with
  | stay => exact h
  | up => exact h
  | into name =>
    rw [turn] at h ⊢
    split at h
    · cases h
    · next short =>
      rw [if_neg short]
      split at h
      · cases h
      · next found =>
        rw [ways _ _ found (by simp)]
        exact h
      · cases h
      · next found =>
        rw [ways _ _ found (by simp)]
        exact h

/-- A walk that does not go on has taken a step to a file or to nothing. -/
theorem turn_ends_at {p : Place} (h : fs.turn k dir step = .ends p) : ∃ name, step = .into name ∧
    name.utf8ByteSize ≤ maxName ∧ p.location = dir ++ [name] ∧ ∀ target, p.entry ≠ some (.link target) := by
  cases step with
  | stay => cases h
  | up => cases h
  | into name =>
    rw [turn] at h
    split at h
    · cases h
    · next short =>
      refine ⟨name, rfl, Nat.not_lt.mp short, ?_⟩
      split at h
      · cases h
        exact ⟨rfl, by simp⟩
      · cases h
      · cases h
        exact ⟨rfl, by simp⟩
      · split at h
        · cases h
        · split at h <;> cases h

/-- A walk that follows links does not end at one. -/
theorem WellFormed.walk_plain (h : fs.WellFormed) (start : fs.entry? dir = some .directory) {p : Place}
    (went : fs.walk true k dir xs = .ok p) (target : String) : p.entry ≠ some (.link target) := by
  induction k, dir, xs using walk_induction fs with
  | nil k dir =>
    rw [walk_nil start] at went
    cases went
    simp
  | cons k dir step rest ih =>
    rw [walk_cons (.inr rfl)] at went
    cases eq : fs.turn k dir step with
    | fails e =>
      rw [eq] at went
      cases went
    | ends q =>
      rw [eq, Turn.goOn] at went
      split at went
      · cases went
        obtain ⟨-, -, -, -, plain⟩ := turn_ends_at eq
        exact plain target
      · cases went
    | leads k' dir' more =>
      rw [eq] at went
      exact ih k' dir' more eq (h.turn_directory start eq) went

/-- A walk leads to the same location as long as the directories and the links are still there. -/
theorem walk_of_waysIn (ways : fs.WaysIn fs') {p : Place} (went : fs.walk true k dir xs = .ok p)
    (plain : ∀ target, fs'.entry? p.location ≠ some (.link target)) :
    fs'.walk true k dir xs = .ok ⟨p.location, fs'.entry? p.location⟩ := by
  induction k, dir, xs using walk_induction fs with
  | nil k dir =>
    rw [walk] at went ⊢
    cases went
    rfl
  | cons k dir step rest ih =>
    rw [walk_cons (.inr rfl)] at went
    cases eq : fs.turn k dir step with
    | fails e =>
      rw [eq] at went
      cases went
    | ends q =>
      rw [eq, Turn.goOn] at went
      split at went
      · next last =>
        obtain rfl := Except.ok.inj went
        obtain ⟨name, rfl, short, there, -⟩ := turn_ends_at eq
        rw [there] at plain
        rw [last, there]
        exact walk_into short fun _ => plain
      · cases went
    | leads k' dir' more =>
      rw [eq] at went
      rw [walk_cons (.inr rfl), turn_leads_in ways eq]
      exact ih k' dir' more eq went

end FileSystem

/-! ### Machines -/

namespace Machine

open FileSystem

variable {m m' m'' : Machine} {Named : String → Prop} {path : String} {loc : Location} {e : Entry}

theorem WellFormed.find_plain (h : m.WellFormed) (found : m.find path = .ok (loc, e)) (target : String) :
    e ≠ .link target := by
  rw [find_eq_ok_iff] at found
  have isPath := isPath_of_locate found
  rw [locate_of_isPath isPath] at found
  exact fun link => h.files.walk_plain (h.origin path) found target (congrArg some link)

theorem exists_of_pathExists (h : m.pathExists path = true) : ∃ loc e, m.find path = .ok (loc, e) := by
  unfold pathExists at h
  split at h
  · next p found => exact ⟨p.1, p.2, found⟩
  · cases h

/-- The second machine is the first with new directories. A path with the property leads to each of them. -/
structure Gains (Named : String → Prop) (m m' : Machine) : Prop where
  home : m'.home = m.home
  workingDirectory : m'.workingDirectory = m.workingDirectory
  entries : ∃ new : List Location,
    m'.files.entries = new.map (fun loc => (loc, Entry.directory)) ++ m.files.entries ∧
      ∀ loc ∈ new, m.files.entry? loc = none ∧ ∃ path, Named path ∧ m'.find path = .ok (loc, .directory)

namespace Gains

theorem refl (Named : String → Prop) (m : Machine) : m.Gains Named m := ⟨rfl, rfl, [], rfl, nofun⟩

/-- What lies somewhere afterwards lay there before, or it is a new directory. -/
theorem entry?_cases (h : m.Gains Named m') (loc : Location) : m'.files.entry? loc = m.files.entry? loc ∨
    m.files.entry? loc = none ∧ m'.files.entry? loc = some .directory ∧
      ∃ path, Named path ∧ m'.find path = .ok (loc, .directory) := by
  obtain ⟨new, eq, fresh⟩ := h.entries
  by_cases root : loc = []
  · rw [root]
    exact .inl rfl
  · rw [entry?_of_ne _ root, eq]
    clear eq
    induction new with
    | nil => exact .inl (entry?_of_ne _ root).symm
    | cons l new ih =>
      obtain ⟨⟨none, named⟩, fresh⟩ := List.forall_mem_cons.mp fresh
      rw [List.map_cons, List.cons_append, List.lookup_cons]
      by_cases here : loc = l
      · subst here
        exact .inr ⟨none, by rw [beq_self_eq_true], named⟩
      · rw [beq_false_of_ne here]
        exact ih fresh

theorem entry?_mono (h : m.Gains Named m') (found : m.files.entry? loc = some e) : m'.files.entry? loc = some e := by
  rcases h.entry?_cases loc with same | ⟨none, -⟩
  · rw [same, found]
  · rw [none] at found
    cases found

theorem find_mono (h : m.Gains Named m') (found : m.find path = .ok (loc, e)) (plain : ∀ target, e ≠ .link target) :
    m'.find path = .ok (loc, e) := by
  rw [find_eq_ok_iff] at found ⊢
  have isPath := isPath_of_locate found
  rw [locate_of_isPath isPath] at found ⊢
  have there : m'.files.entry? loc = some e := h.entry?_mono (walk_entry found)
  have same : m'.origin path = m.origin path := by rw [origin, origin, h.workingDirectory]
  rw [same, walk_of_waysIn (fun _ _ found _ => h.entry?_mono found) found, there]
  intro target link
  exact plain target (Option.some.inj (there.symm.trans link))

theorem trans (h : m.Gains Named m') (h' : m'.Gains Named m'') : m.Gains Named m'' := by
  refine ⟨h'.home.trans h.home, h'.workingDirectory.trans h.workingDirectory, ?_⟩
  obtain ⟨new, eq, fresh⟩ := h.entries
  obtain ⟨new', eq', fresh'⟩ := h'.entries
  refine ⟨new' ++ new, by rw [eq', eq, List.map_append, List.append_assoc], fun loc hl => ?_⟩
  rcases List.mem_append.mp hl with later | first
  · obtain ⟨none, named⟩ := fresh' loc later
    refine ⟨?_, named⟩
    cases before : m.files.entry? loc with
    | none => rfl
    | some e =>
      rw [h.entry?_mono before] at none
      cases none
  · obtain ⟨none, path, named, found⟩ := fresh loc first
    exact ⟨none, path, named, h'.find_mono found nofun⟩

theorem mono {Named' : String → Prop} (h : m.Gains Named m') (imp : ∀ path, Named path → Named' path) :
    m.Gains Named' m' := by
  obtain ⟨new, eq, fresh⟩ := h.entries
  refine ⟨h.home, h.workingDirectory, new, eq, fun loc hl => ?_⟩
  obtain ⟨none, path, named, found⟩ := fresh loc hl
  exact ⟨none, path, imp path named, found⟩

/-- No file comes, goes or changes. -/
theorem file_iff (h : m.Gains Named m') {content : List UInt8} :
    m'.files.entry? loc = some (.file content) ↔ m.files.entry? loc = some (.file content) := by
  refine ⟨fun found => ?_, h.entry?_mono⟩
  rcases h.entry?_cases loc with same | ⟨-, directory, -⟩
  · rwa [← same]
  · rw [directory] at found
    cases found

/-- A new directory holds new directories only. -/
theorem directory_below (h : m.Gains Named m') (tree : m.files.WellFormed) (none : m.files.entry? loc = none)
    {below : Location} (found : m'.files.entry? (loc ++ below) = some e) : e = .directory := by
  rcases h.entry?_cases (loc ++ below) with same | ⟨-, directory, -⟩
  · rw [same] at found
    obtain ⟨e', above⟩ := tree.exists_above below found
    rw [none] at above
    cases above
  · rw [directory] at found
    exact (Option.some.inj found).symm

theorem pathExists_mono (h : m.Gains Named m') (tree : m.WellFormed) (found : m.pathExists path = true) :
    m'.pathExists path = true := by
  obtain ⟨loc, e, found⟩ := exists_of_pathExists found
  rw [pathExists, h.find_mono found (tree.find_plain found)]

end Gains

end Machine

end Provisioning.Host
