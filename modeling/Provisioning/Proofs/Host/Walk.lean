import Provisioning.Proofs.Host.Tree

/-! Walks through a file system, step by step. Where the first steps of a walk lead decides where it goes on; steps that
stay where they are do not count, and a walk that may follow more links leads to the same place. -/

namespace Provisioning.Host

namespace FileSystem

variable {fs : FileSystem} {follow : Bool} {k : Nat} {dir loc : Location} {step : Step} {rest xs ys : List Step}

/-! ### One step -/

/-- What one step comes to in the middle of a walk. -/
inductive Turn where
  | fails (e : IoError)
  /-- There is no way on from here. -/
  | ends (place : Place)
  /-- The walk goes on in a directory, for a link with the steps of its target first. -/
  | leads (links : Nat) (dir : Location) (steps : List Step)

def turn (fs : FileSystem) (k : Nat) (dir : Location) : Step → Turn
  | .stay => .leads k dir []
  | .up => .leads k dir.dropLast []
  | .into name =>
    if maxName < name.utf8ByteSize then .fails .nameTooLong
    else
      match fs.entry? (dir ++ [name]) with
      | none => .ends ⟨dir ++ [name], none⟩
      | some .directory => .leads k (dir ++ [name]) []
      | some (.file content) => .ends ⟨dir ++ [name], some (.file content)⟩
      | some (.link target) =>
        match k with
        | 0 => .fails .tooManyLinks
        | k + 1 =>
          if target.isEmpty then .fails .notFound
          else .leads k (if Path.isAbsolute target then [] else dir) (steps target)

/-- Why a place has nothing below it. -/
def Place.refusal (p : Place) : IoError := if p.entry = none then .notFound else .notDirectory

/-- How a walk with other steps left goes on. -/
def Turn.goOn (fs : FileSystem) (follow : Bool) (rest : List Step) : Turn → Except IoError Place
  | .fails e => .error e
  | .ends p => if rest = [] then .ok p else .error p.refusal
  | .leads k dir more => fs.walk follow k dir (more ++ rest)

/-- Only a link at the end makes a difference between walks that follow it and those that do not. -/
theorem walk_cons (on : rest ≠ [] ∨ follow = true) :
    fs.walk follow k dir (step :: rest) = (fs.turn k dir step).goOn fs follow rest := by
  have followed : ¬ (rest = [] ∧ (!follow) = true) := by
    rintro ⟨none, stop⟩
    rcases on with some | go
    · exact some none
    · simp [go] at stop
  cases step with
  | stay => rw [walk]; rfl
  | up => rw [walk]; rfl
  | into name =>
    rw [walk, turn]
    split
    · rfl
    · cases fs.entry? (dir ++ [name]) with
      | none => rfl
      | some e =>
        cases e with
        | file => rfl
        | directory => rfl
        | link target =>
          cases k with
          | zero => rfl
          | succ k =>
            by_cases empty : target.isEmpty = true
            · simp only [if_pos empty]; rfl
            · simp only [if_neg empty]; rfl

theorem walk_nil (start : fs.entry? dir = some .directory) :
    fs.walk follow k dir [] = .ok ⟨dir, some .directory⟩ := by
  rw [walk, start]

/-- A walk into one entry that is no link, or that is not to be followed. -/
theorem walk_into {name : String} (short : name.utf8ByteSize ≤ maxName)
    (plain : follow = true → ∀ target, fs.entry? (dir ++ [name]) ≠ some (.link target)) :
    fs.walk follow k dir [.into name] = .ok ⟨dir ++ [name], fs.entry? (dir ++ [name])⟩ := by
  rw [walk, if_neg (Nat.not_lt.mpr short)]
  cases found : fs.entry? (dir ++ [name]) with
  | none => rfl
  | some e =>
    cases e with
    | file => rfl
    | directory => exact walk_nil found
    | link target =>
      have stop : follow = false := by
        cases follow with
        | false => rfl
        | true => exact absurd found (plain rfl target)
      simp [stop]

theorem eq_of_walk_into {name : String} {p : Place} (went : fs.walk false k dir [.into name] = .ok p) :
    p = ⟨dir ++ [name], fs.entry? (dir ++ [name])⟩ := by
  have short : name.utf8ByteSize ≤ maxName := by
    by_contra long
    rw [walk, if_pos (Nat.not_le.mp long)] at went
    cases went
  rw [walk_into short (by simp)] at went
  exact (Except.ok.inj went).symm

theorem turn_ends {p : Place} (h : fs.turn k dir step = .ends p) :
    fs.entry? p.location = p.entry ∧ p.entry ≠ some .directory := by
  cases step with
  | stay => cases h
  | up => cases h
  | into name =>
    rw [turn] at h
    split at h
    · cases h
    · split at h
      · next found =>
        cases h
        exact ⟨found, by simp⟩
      · cases h
      · next found =>
        cases h
        exact ⟨found, by simp⟩
      · split at h
        · cases h
        · split at h <;> cases h

/-- A step leads to a directory beside or below with the links that are left, or a link with one less to its target. -/
theorem turn_leads {k' : Nat} {dir' : Location} {more : List Step} (h : fs.turn k dir step = .leads k' dir' more) :
    (k' = k ∧ more = [] ∧ (dir' = dir ∨ dir' = dir.dropLast ∨ fs.entry? dir' = some .directory)) ∨
      (k' < k ∧ (dir' = dir ∨ dir' = [])) := by
  cases step with
  | stay =>
    cases h
    exact .inl ⟨rfl, rfl, .inl rfl⟩
  | up =>
    cases h
    exact .inl ⟨rfl, rfl, .inr (.inl rfl)⟩
  | into name =>
    rw [turn] at h
    split at h
    · cases h
    · split at h
      · cases h
      · next found =>
        cases h
        exact .inl ⟨rfl, rfl, .inr (.inr found)⟩
      · cases h
      · split at h
        · cases h
        · split at h
          · cases h
          · cases h
            refine .inr ⟨Nat.lt_succ_self _, ?_⟩
            split
            · exact .inr rfl
            · exact .inl rfl

theorem WellFormed.turn_directory (h : fs.WellFormed) (start : fs.entry? dir = some .directory) {k' : Nat}
    {dir' : Location} {more : List Step} (eq : fs.turn k dir step = .leads k' dir' more) :
    fs.entry? dir' = some .directory := by
  rcases turn_leads eq with ⟨-, -, rfl | rfl | inside⟩ | ⟨-, rfl | rfl⟩
  · exact start
  · exact h.dropLast start
  · exact inside
  · exact start
  · rfl

def Turn.withLinks (more : Nat) : Turn → Turn
  | .fails e => .fails e
  | .ends p => .ends p
  | .leads k dir steps => .leads (k + more) dir steps

theorem turn_more_links (enough : fs.turn k dir step ≠ .fails .tooManyLinks) (more : Nat) :
    fs.turn (k + more) dir step = (fs.turn k dir step).withLinks more := by
  cases step with
  | stay => rfl
  | up => rfl
  | into name =>
    rw [turn] at enough
    rw [turn, turn]
    split
    · rfl
    · next short =>
      rw [if_neg short] at enough
      cases found : fs.entry? (dir ++ [name]) with
      | none => rfl
      | some e =>
        rw [found] at enough
        cases e with
        | file => rfl
        | directory => rfl
        | link target =>
          cases k with
          | zero => exact absurd rfl enough
          | succ k =>
            rw [Nat.add_right_comm]
            by_cases empty : target.isEmpty = true
            · simp only [if_pos empty]; rfl
            · simp only [if_neg empty]; rfl

theorem turn_congr {fs' : FileSystem} (same : ∀ loc, fs'.entry? loc = fs.entry? loc) :
    fs'.turn k dir step = fs.turn k dir step := by
  cases step with
  | stay => rfl
  | up => rfl
  | into name => rw [turn, turn, same]

/-! ### Whole walks -/

/-- Induction along a walk. A step may lead to more steps, but then it has used up a link. -/
@[elab_as_elim]
theorem walk_induction (fs : FileSystem) {motive : Nat → Location → List Step → Prop} (nil : ∀ k dir, motive k dir [])
    (cons : ∀ k dir step rest, (∀ k' dir' more, fs.turn k dir step = .leads k' dir' more →
      motive k' dir' (more ++ rest)) → motive k dir (step :: rest)) (k : Nat) (dir : Location) (xs : List Step) :
    motive k dir xs := by
  -- First on the links that are left, then on the steps: the steps of a link's target come on top, for one link less.
  induction k using Nat.strongRecOn generalizing dir xs with
  | ind k links =>
    induction xs generalizing dir with
    | nil => exact nil k dir
    | cons step rest ih =>
      refine cons k dir step rest fun k' dir' more eq => ?_
      rcases turn_leads eq with ⟨rfl, rfl, -⟩ | ⟨fewer, -⟩
      · exact ih dir'
      · exact links k' fewer dir' _

/-- How a walk goes on from what its first part has led to. -/
def goOn (fs : FileSystem) (follow : Bool) (k : Nat) (ys : List Step) : Except IoError Place → Except IoError Place
  | .ok p => if p.entry = some .directory then fs.walk follow k p.location ys else .error p.refusal
  | .error e => .error e

theorem walk_entry {p : Place} (h : fs.walk true k dir xs = .ok p) : fs.entry? p.location = p.entry := by
  induction k, dir, xs using walk_induction fs with
  | nil k dir =>
    rw [walk] at h
    cases h
    rfl
  | cons k dir step rest ih =>
    rw [walk_cons (.inr rfl)] at h
    cases eq : fs.turn k dir step with
    | fails e =>
      rw [eq] at h
      cases h
    | ends q =>
      rw [eq, Turn.goOn] at h
      split at h
      · cases h
        exact (turn_ends eq).1
      · cases h
    | leads k' dir' steps =>
      rw [eq] at h
      exact ih k' dir' steps eq h

theorem goOn_eq_ok_iff {r : Except IoError Place} {p : Place} : fs.goOn follow k ys r = .ok p ↔
    ∃ dir, r = .ok ⟨dir, some .directory⟩ ∧ fs.walk follow k dir ys = .ok p := by
  constructor
  · intro h
    cases r with
    | error e => cases h
    | ok q =>
      rw [goOn] at h
      split at h
      · next isDirectory => exact ⟨q.location, by rw [← isDirectory], h⟩
      · cases h
  · rintro ⟨dir, rfl, went⟩
    rw [goOn, if_pos rfl, went]

/-- The first part of a walk follows some of the links and leaves the others to the second. -/
theorem WellFormed.walk_append (h : fs.WellFormed) (start : fs.entry? dir = some .directory) (xs : List Step) :
    ∃ k' ≤ k, ∀ follow ys, ys ≠ [] →
      fs.walk follow k dir (xs ++ ys) = fs.goOn follow k' ys (fs.walk true k dir xs) := by
  -- The links that `xs` leaves depend neither on `ys` nor on whether its last link is followed.
  induction k, dir, xs using walk_induction fs with
  | nil k dir =>
    refine ⟨k, Nat.le_refl k, fun follow ys _ => ?_⟩
    rw [walk_nil start, goOn, if_pos rfl, List.nil_append]
  | cons k dir step rest ih =>
    have through (follow : Bool) (ys : List Step) (ne : ys ≠ []) : fs.walk follow k dir (step :: rest ++ ys) =
        (fs.turn k dir step).goOn fs follow (rest ++ ys) :=
      walk_cons (.inl (List.append_ne_nil_of_right_ne_nil rest ne))
    rw [walk_cons (.inr rfl)]
    cases eq : fs.turn k dir step with
    | fails e =>
      refine ⟨k, Nat.le_refl k, fun follow ys ne => ?_⟩
      rw [through follow ys ne, eq]
      rfl
    | ends p =>
      refine ⟨k, Nat.le_refl k, fun follow ys ne => ?_⟩
      rw [through follow ys ne, eq, Turn.goOn, if_neg (List.append_ne_nil_of_right_ne_nil rest ne), Turn.goOn]
      split
      · rw [goOn, if_neg (turn_ends eq).2]
      · rfl
    | leads k₁ dir₁ more =>
      obtain ⟨k', le, parts⟩ := ih k₁ dir₁ more eq (h.turn_directory start eq)
      have fewer : k₁ ≤ k := by
        rcases turn_leads eq with ⟨rfl, -⟩ | ⟨lt, -⟩
        · exact Nat.le_refl _
        · exact Nat.le_of_lt lt
      refine ⟨k', Nat.le_trans le fewer, fun follow ys ne => ?_⟩
      rw [through follow ys ne, eq, Turn.goOn, ← List.append_assoc, parts follow ys ne]
      rfl

/-- A step that stays where it is does not count unless it is the last one. -/
theorem walk_stay (ne : ys ≠ []) (xs : List Step) :
    fs.walk follow k dir (xs ++ .stay :: ys) = fs.walk follow k dir (xs ++ ys) := by
  induction k, dir, xs using walk_induction fs with
  | nil k dir => rw [List.nil_append, List.nil_append, walk]
  | cons k dir step rest ih =>
    have more : rest ++ .stay :: ys ≠ [] := List.append_ne_nil_of_right_ne_nil rest (List.cons_ne_nil _ _)
    have less : rest ++ ys ≠ [] := List.append_ne_nil_of_right_ne_nil rest ne
    rw [List.cons_append, List.cons_append, walk_cons (.inl more), walk_cons (.inl less)]
    cases eq : fs.turn k dir step with
    | fails e => rfl
    | ends p => rw [Turn.goOn, Turn.goOn, if_neg more, if_neg less]
    | leads k₁ dir₁ steps =>
      have later := ih k₁ dir₁ steps eq
      rw [List.append_assoc, List.append_assoc] at later
      exact later

theorem walk_moves (ne : ys ≠ []) (xs before : List Step) :
    fs.walk follow k dir (before ++ (moves xs ++ ys)) = fs.walk follow k dir (before ++ (xs ++ ys)) := by
  induction xs generalizing before with
  | nil => rfl
  | cons step xs ih =>
    by_cases still : step = .stay
    · subst still
      rw [List.cons_append, walk_stay (List.append_ne_nil_of_right_ne_nil xs ne), ← ih before]
      rfl
    · have kept : moves (step :: xs) = step :: moves xs := by simp [moves, still]
      have later := ih (before ++ [step])
      rw [List.append_assoc, List.append_assoc] at later
      rw [kept]
      exact later

/-- Only the steps that go somewhere decide where a walk goes on. -/
theorem walk_congr_moves {xs' : List Step} (same : moves xs = moves xs') (ne : ys ≠ []) :
    fs.walk follow k dir (xs ++ ys) = fs.walk follow k dir (xs' ++ ys) := by
  have left : fs.walk follow k dir (moves xs ++ ys) = _ := walk_moves ne xs []
  have right : fs.walk follow k dir (moves xs' ++ ys) = _ := walk_moves ne xs' []
  rw [same] at left
  exact left.symm.trans right

/-- A walk that ends has no use for more links. -/
theorem walk_more_links {r : Except IoError Place} (h : fs.walk true k dir xs = r) (enough : r ≠ .error .tooManyLinks)
    (more : Nat) : fs.walk true (k + more) dir xs = r := by
  induction k, dir, xs using walk_induction fs with
  | nil k dir =>
    rw [walk] at h ⊢
    exact h
  | cons k dir step rest ih =>
    rw [walk_cons (.inr rfl)] at h ⊢
    have goes : fs.turn k dir step ≠ .fails .tooManyLinks := by
      intro eq
      rw [eq] at h
      exact enough h.symm
    rw [turn_more_links goes]
    cases eq : fs.turn k dir step with
    | fails e =>
      rw [eq] at h
      exact h
    | ends p =>
      rw [eq] at h
      exact h
    | leads k' dir' steps =>
      rw [eq] at h
      exact ih k' dir' steps eq h

/-- The way down to a directory of the tree follows no links. -/
theorem WellFormed.walk_down (h : fs.WellFormed) (start : fs.entry? (dir ++ loc) = some .directory) (ys : List Step) :
    fs.walk follow k dir (loc.map .into ++ ys) = fs.walk follow k (dir ++ loc) ys := by
  induction loc using List.reverseRecOn generalizing ys with
  | nil => rw [List.append_nil]; rfl
  | append_singleton loc name ih =>
    rw [← List.append_assoc] at start ⊢
    have short : ¬ maxName < name.utf8ByteSize := Nat.not_lt.mpr (h.short start)
    rw [List.map_append, List.append_assoc, ih (h.parent start), List.map_singleton, List.singleton_append, walk,
      if_neg short, start]

theorem walk_congr {fs' : FileSystem} (same : ∀ loc, fs'.entry? loc = fs.entry? loc) :
    fs'.walk true k dir xs = fs.walk true k dir xs := by
  induction k, dir, xs using walk_induction fs with
  | nil k dir => rw [walk, walk, same]
  | cons k dir step rest ih =>
    rw [walk_cons (.inr rfl), walk_cons (.inr rfl), turn_congr same]
    cases eq : fs.turn k dir step with
    | fails e => rfl
    | ends p => rfl
    | leads k' dir' steps => exact ih k' dir' steps eq

end FileSystem

end Provisioning.Host
