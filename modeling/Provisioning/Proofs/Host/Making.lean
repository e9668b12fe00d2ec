import Provisioning.Proofs.Host.Growth

/-! Directories that are made with those they lie in. The path is cut after whole names from its end on, and only these
leading parts of its text are tried: `makeDirectories` gives a machine that gains directories which they name, and with
no error the path leads to a directory. -/

namespace Provisioning.Host

open FileSystem

/-! ### Leading parts -/

/-- The text up to one of its slashes, with the slash or without it, or the whole text. -/
def IsLeadingPart (part path : String) : Prop :=
  ∃ rest, path.toList = part.toList ++ rest ∧
    (rest = [] ∨ rest.head? = some '/' ∨ part.toList.getLast? = some '/')

namespace IsLeadingPart

variable {part path path' : String}

theorem refl (path : String) : IsLeadingPart path path := ⟨[], (List.append_nil _).symm, .inl rfl⟩

theorem trans (h : IsLeadingPart part path) (h' : IsLeadingPart path path') : IsLeadingPart part path' := by
  obtain ⟨rest, eq, cut⟩ := h
  obtain ⟨rest', eq', cut'⟩ := h'
  refine ⟨rest ++ rest', by rw [eq', eq, List.append_assoc], ?_⟩
  rcases cut with rfl | slash | slash
  · rw [List.append_nil] at eq
    rwa [← eq]
  · obtain ⟨more, rfl⟩ := List.head?_eq_some_iff.mp slash
    exact .inr (.inl rfl)
  · exact .inr (.inr slash)

end IsLeadingPart

namespace Path

theorem exists_of_dropLastPart? {relative : Bool} {parts before : List (List Char)}
    (h : dropLastPart? relative parts = some before) : ∃ more, more ≠ [] ∧ parts = before ++ more := by
  unfold dropLastPart? at h
  split at h
  · cases h
  · next last front eq =>
    obtain ⟨rest, kept⟩ := dropVoidEnd_starts relative front.reverse
    obtain ⟨rest', whole⟩ := dropVoidEnd_starts relative parts
    have reversed : dropVoidEnd relative parts = front.reverse ++ [last] := by
      rw [← List.reverse_reverse (dropVoidEnd relative parts), eq, List.reverse_cons]
    refine ⟨rest ++ last :: rest', by simp, ?_⟩
    rw [← whole, reversed, ← Option.some.inj h, ← List.append_assoc, kept, List.append_assoc]
    rfl

/-- The parts that are left end before a slash. -/
theorem ofParts_of_dropLastPart? {relative : Bool} {cs : List Char} {before : List (List Char)}
    (h : dropLastPart? relative (Text.splitOn '/' cs) = some before) (ne : before ≠ []) :
    ∃ rest, cs = ofParts before ++ '/' :: rest := by
  obtain ⟨more, full, eq⟩ := exists_of_dropLastPart? h
  exact ⟨ofParts more, by rw [← ofParts_append ne full, ← eq, ofParts_splitOn]⟩

theorem parent?_isLeadingPart {path directory : String} (h : parent? path = some directory) (ne : directory ≠ "") :
    IsLeadingPart directory path := by
  unfold parent? at h
  split at h
  · next body eq =>
    obtain ⟨before, left, rfl⟩ := Option.map_eq_some_iff.mp h
    by_cases root : before = []
    · subst root
      exact ⟨body, eq, .inr (.inr rfl)⟩
    · obtain ⟨rest, split⟩ := ofParts_of_dropLastPart? left root
      refine ⟨'/' :: rest, ?_, .inr (.inl rfl)⟩
      rw [String.toList_ofList, eq, split]
      rfl
  · obtain ⟨before, left, rfl⟩ := Option.map_eq_some_iff.mp h
    have some : before ≠ [] := by
      rintro rfl
      exact ne rfl
    obtain ⟨rest, split⟩ := ofParts_of_dropLastPart? left some
    exact ⟨'/' :: rest, by rw [String.toList_ofList, ← split], .inr (.inl rfl)⟩

end Path

/-! ### Steps into names -/

namespace FileSystem

theorem isName_of_mem_named {cs : List Char} {name : String} (h : .into name ∈ named cs) (plain : '\x00' ∉ cs) :
    IsName name := by
  obtain ⟨part, hp, eq⟩ := List.mem_filterMap.mp h
  unfold stepOf? at eq
  split at eq
  · cases eq
  · next full =>
    split at eq
    · cases eq
    · next dot =>
      split at eq
      · cases eq
      · next dots =>
        obtain rfl : String.ofList part = name := Step.into.inj (Option.some.inj eq)
        refine ⟨?_, ?_, ?_, ?_, ?_⟩
        · exact fun empty => full (by simpa using congrArg String.toList empty)
        · exact fun empty => dot (by simpa using congrArg String.toList empty)
        · exact fun empty => dots (by simpa using congrArg String.toList empty)
        · rw [String.toList_ofList]
          exact Text.not_mem_of_mem_splitOn hp
        · rw [String.toList_ofList]
          intro nul
          have inside : '\x00' ∈ (Text.splitOn '/' cs).flatMap (· ++ ['/']) :=
            List.mem_flatMap.mpr ⟨part, hp, List.mem_append_left _ nul⟩
          rw [Text.splitOn_flatMap, List.mem_append, List.mem_singleton] at inside
          exact inside.elim plain (by decide)

theorem named_dropEndSlashes (cs : List Char) : named (Text.dropEndWhile (· == '/') cs) = named cs := by
  induction cs using List.reverseRecOn with
  | nil => rfl
  | append_singleton cs c ih =>
    by_cases slash : c = '/'
    · subst slash
      rw [Text.dropEndWhile_append_of_pos cs (List.forall_mem_singleton.mpr rfl), ih, named_concat]
    · rw [Text.dropEndWhile_append (p := (· == '/')) (beq_false_of_ne slash)]
      rfl

end FileSystem

namespace Machine

variable {m m' : Machine} {path : String}

theorem named_withoutEndSlashes (path : String) : named (withoutEndSlashes path).toList = named path.toList := by
  unfold withoutEndSlashes
  dsimp only
  split
  · rfl
  · rw [Path.dropEndSlashes, String.toList_ofList, named_dropEndSlashes]

/-! ### One directory -/

/-- A walk to a place with nothing ends with a step into a name. -/
theorem WellFormed.walk_to_nothing (h : m.WellFormed) {xs : List Step} {loc : Location}
    (went : m.files.walk false maxLinks (m.origin path) xs = .ok ⟨loc, none⟩) :
    ∃ dir name, .into name ∈ xs ∧ name.utf8ByteSize ≤ maxName ∧ loc = dir ++ [name] ∧
      m.files.entry? dir = some .directory ∧ m.files.entry? loc = none ∧
      m.files.walk true maxLinks (m.origin path) xs = .ok ⟨loc, none⟩ := by
  have start := h.origin path
  rcases List.eq_nil_or_concat xs with rfl | ⟨front, step, rfl⟩
  · rw [walk_nil start] at went
    cases went
  · rw [List.concat_eq_append] at went ⊢
    obtain ⟨k, -, parts⟩ := h.files.walk_append start front
    rw [parts false _ (List.cons_ne_nil _ _)] at went
    obtain ⟨dir, led, went⟩ := goOn_eq_ok_iff.mp went
    have inside := walk_entry led
    cases step with
    | stay =>
      rw [walk, walk_nil inside] at went
      cases went
    | up =>
      rw [walk, walk_nil (h.files.dropLast inside)] at went
      cases went
    | into name =>
      obtain ⟨rfl, nothing⟩ := Place.mk.inj (eq_of_walk_into went)
      have short : name.utf8ByteSize ≤ maxName := by
        by_contra long
        rw [walk, if_pos (Nat.not_le.mp long)] at went
        cases went
      refine ⟨dir, name, by simp, short, rfl, inside, nothing.symm, ?_⟩
      rw [parts true _ (List.cons_ne_nil _ _), led, goOn, if_pos rfl, walk_into short, ← nothing]
      intro _ target
      rw [← nothing]
      simp

theorem isPath_of_lead {follow : Bool} {xs : List Step} {p : Place} (checked : checkLength path = .ok ())
    (led : m.lead follow path xs = .ok p) :
    IsPath path ∧ m.files.walk follow maxLinks (m.origin path) xs = .ok p := by
  obtain ⟨full, plain, went⟩ := of_lead led
  exact ⟨⟨full, plain, short_of_checkLength checked plain⟩, went⟩

theorem makeDirectory_eq_ok (made : m.makeDirectory path = .ok m') : IsPath path ∧ ∃ loc,
    m.files.walk false maxLinks (m.origin path) (steps (withoutEndSlashes path)) = .ok ⟨loc, none⟩ ∧
      m' = { m with files := m.files.put loc .directory } := by
  rw [Machine.makeDirectory] at made
  cases checked : checkLength path with
  | error e =>
    rw [checked] at made
    cases made
  | ok _ =>
    cases led : m.lead false path (steps (withoutEndSlashes path)) with
    | error e =>
      rw [checked, led] at made
      cases made
    | ok p =>
      obtain ⟨loc, entry⟩ := p
      rw [checked, led] at made
      obtain ⟨isPath, went⟩ := isPath_of_lead checked led
      cases entry with
      | some e => cases made
      | none =>
        cases made
        exact ⟨isPath, loc, went, rfl⟩

/-- The directory that is made was not there before, and its path leads to it. -/
theorem WellFormed.makeDirectory (h : m.WellFormed) (made : m.makeDirectory path = .ok m') :
    m'.WellFormed ∧ m.Gains (· = path) m' ∧ ∃ loc, m'.find path = .ok (loc, .directory) := by
  obtain ⟨isPath, loc, went, rfl⟩ := makeDirectory_eq_ok made
  have plain : m.files.walk false maxLinks (m.origin path) (named path.toList) = .ok ⟨loc, none⟩ := by
    rw [← named_withoutEndSlashes]
    rcases steps_cases (withoutEndSlashes path) with same | slash
    · rw [same] at went
      exact went
    · -- Behind the slash a directory would have to be there.
      obtain ⟨k, -, parts⟩ := h.files.walk_append (h.origin path) (named (withoutEndSlashes path).toList)
      rw [slash, parts false [.stay] (List.cons_ne_nil _ _)] at went
      obtain ⟨dir, led, went⟩ := goOn_eq_ok_iff.mp went
      rw [walk, walk_nil (walk_entry led)] at went
      cases went
  obtain ⟨dir, name, into, short, rfl, inside, nothing, followed⟩ := h.walk_to_nothing plain
  have proper := isName_of_mem_named into isPath.no_nul
  have full : dir ++ [name] ≠ [] := List.concat_ne_nil _ _
  have kept {loc : Location} {e : Entry} (found : m.files.entry? loc = some e) :
      entry? (m.files.put (dir ++ [name]) .directory) loc = some e := by
    rw [entry?_put_of_ne, found]
    rintro rfl
    rw [nothing] at found
    cases found
  have tree : { m with files := m.files.put (dir ++ [name]) .directory }.WellFormed :=
    ⟨h.files.put_directory inside nothing proper short, kept h.here⟩
  have there : entry? (m.files.put (dir ++ [name]) .directory) (dir ++ [name]) = some .directory :=
    entry?_put_self _ full _
  have found : { m with files := m.files.put (dir ++ [name]) .directory }.find path =
      .ok (dir ++ [name], .directory) := by
    refine tree.find_directory_iff.mpr ⟨isPath, ?_⟩
    have again := walk_of_waysIn (fun _ _ found _ => kept found) followed fun target => by
      rw [there]
      simp
    rwa [there] at again
  refine ⟨tree, ⟨rfl, rfl, [dir ++ [name]], entries_put nothing _, ?_⟩, _, found⟩
  exact List.forall_mem_singleton.mpr ⟨nothing, path, rfl, found⟩

theorem exists_of_isDirectory (h : m.isDirectory path = true) : ∃ loc, m.find path = .ok (loc, .directory) := by
  unfold isDirectory at h
  split at h
  · next loc found => exact ⟨loc, found⟩
  · cases h

/-! ### All of them -/

/-- Makes one directory. One that is there already is no error. -/
def attempt (m : Machine) (path : String) : Except IoError Unit × Machine :=
  match m.makeDirectory path with
  | .ok m => (.ok (), m)
  | .error e => if m.isDirectory path then (.ok (), m) else (.error e, m)

theorem makeAll_cons (m : Machine) (path : String) (outer : List String) : m.makeAll (path :: outer) =
    match m.makeDirectory path with
    | .error .notFound =>
      match m.makeAll outer with
      | (.error e, m) => (.error e, m)
      | (.ok (), m) => m.attempt path
    | _ => m.attempt path := by
  rw [makeAll, Machine.attempt]
  cases m.makeDirectory path with
  | ok m' => rfl
  | error e => cases e <;> rfl

theorem WellFormed.attempt (h : m.WellFormed) (path : String) :
    (m.attempt path).2.WellFormed ∧ m.Gains (· = path) (m.attempt path).2 ∧
      ((m.attempt path).1 = .ok () → ∃ loc, (m.attempt path).2.find path = .ok (loc, .directory)) := by
  unfold Machine.attempt
  cases made : m.makeDirectory path with
  | ok m' =>
    obtain ⟨tree, gains, found⟩ := h.makeDirectory made
    exact ⟨tree, gains, fun _ => found⟩
  | error e =>
    dsimp only
    split
    · next there => exact ⟨h, .refl _ m, fun _ => exists_of_isDirectory there⟩
    · exact ⟨h, .refl _ m, nofun⟩

theorem WellFormed.makeAll (h : m.WellFormed) (paths : List String) :
    (m.makeAll paths).2.WellFormed ∧ m.Gains (· ∈ paths) (m.makeAll paths).2 ∧
      ((m.makeAll paths).1 = .ok () →
        ∀ path ∈ paths.head?, ∃ loc, (m.makeAll paths).2.find path = .ok (loc, .directory)) := by
  induction paths with
  | nil => exact ⟨h, .refl _ m, nofun⟩
  | cons path outer ih =>
    have here (path' : String) (eq : path' = path) : path' ∈ path :: outer := eq ▸ List.mem_cons_self
    rw [makeAll_cons, List.head?_cons]
    split
    · generalize m.makeAll outer = made at ih
      obtain ⟨result, m'⟩ := made
      obtain ⟨tree, gains, -⟩ := ih
      have gains := gains.mono fun _ => List.mem_cons_of_mem path
      cases result with
      | error e => exact ⟨tree, gains, nofun⟩
      | ok _ =>
        obtain ⟨tree', gains', found⟩ := tree.attempt path
        refine ⟨tree', gains.trans (gains'.mono here), fun ok _ eq => ?_⟩
        obtain rfl := Option.some.inj eq
        exact found ok
    · obtain ⟨tree, gains, found⟩ := h.attempt path
      refine ⟨tree, gains.mono here, fun ok _ eq => ?_⟩
      obtain rfl := Option.some.inj eq
      exact found ok

theorem mem_ancestors {part path : String} (h : part ∈ ancestors path) : IsLeadingPart part path := by
  unfold ancestors at h
  generalize path.length = fuel at h
  induction fuel generalizing path with
  | zero => cases h
  | succ fuel ih =>
    rw [ancestors.go] at h
    split at h
    · cases h
    · next full =>
      obtain rfl | above := List.mem_cons.mp h
      · exact .refl part
      · cases eq : Path.parent? path with
        | none =>
          rw [eq] at above
          cases above
        | some directory =>
          rw [eq] at above
          have some : directory ≠ "" := by
            rintro rfl
            cases fuel <;> cases above
          exact (ih above).trans (Path.parent?_isLeadingPart eq some)

theorem head?_ancestors (full : path ≠ "") : (ancestors path).head? = some path := by
  have long : path.length ≠ 0 := by simpa [String.length_eq_zero_iff] using full
  obtain ⟨fuel, eq⟩ := Nat.exists_eq_succ_of_ne_zero long
  rw [ancestors, eq, ancestors.go, if_neg (by simpa using full)]
  rfl

/-- Only leading parts of the path name new directories. With no error the path leads to a directory, unless it is
empty. -/
theorem WellFormed.makeDirectories (h : m.WellFormed) (path : String) :
    (m.makeDirectories path).2.WellFormed ∧ m.Gains (IsLeadingPart · path) (m.makeDirectories path).2 ∧
      ((m.makeDirectories path).1 = .ok () → path ≠ "" →
        ∃ loc, (m.makeDirectories path).2.find path = .ok (loc, .directory)) := by
  obtain ⟨tree, gains, found⟩ := h.makeAll (ancestors path)
  exact ⟨tree, gains.mono fun _ => mem_ancestors, fun ok full => found ok path (head?_ancestors full)⟩

end Machine

end Provisioning.Host
