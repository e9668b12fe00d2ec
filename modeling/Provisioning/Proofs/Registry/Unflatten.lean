import Mathlib
import Provisioning.Proofs.Registry.Flattened
import Provisioning.Proofs.Registry.History

/-! What a flattened name stands for. It names the first subject that is written like the part before the first
underscore, and the first of its actions that is written like the rest. A rest that no action is written like stands
for an action in camel case. That is written like the rest, too, so that no recipe is bound to it. -/

namespace Provisioning

/-! ### First names -/

/-- The first text with the property, in the order of the bytes. -/
structure First (P : String → Prop) (name : String) : Prop where
  holds : P name
  least : ∀ other, P other → other = name ∨ Text.utf8 name < Text.utf8 other

/-- A search in names that ascend finds the first one. -/
theorem Ascending.first_of_find? {names : List String} (h : Ascending names) {p : String → Bool} {P : String → Prop}
    (means : ∀ n, P n ↔ n ∈ names ∧ p n = true) {name : String} (found : names.find? p = some name) : First P name := by
  obtain ⟨holds, before, after, rfl, passed⟩ := List.find?_eq_some_iff_append.mp found
  refine ⟨(means name).mpr ⟨by simp, holds⟩, fun other fits => ?_⟩
  obtain ⟨mem, fits⟩ := (means other).mp fits
  rcases List.mem_append.mp mem with early | late
  · have refused := passed other early
    rw [fits] at refused
    cases refused
  · rcases List.mem_cons.mp late with eq | later
    · exact .inl eq
    · exact .inr ((List.pairwise_cons.mp (List.pairwise_append.mp h).2.1).1 other later)

namespace Text

theorem splitOnce?_eq_some_iff {sep : Char} {cs piece rest : List Char} :
    splitOnce? sep cs = some (piece, rest) ↔ sep ∉ piece ∧ cs = piece ++ sep :: rest := by
  constructor
  · intro h
    induction cs generalizing piece with
    | nil => cases h
    | cons c cs ih =>
      rw [splitOnce?] at h
      split at h
      · next same =>
        cases h
        exact ⟨List.not_mem_nil, by rw [same, List.nil_append]⟩
      · next other =>
        obtain ⟨⟨piece', rest'⟩, found, eq⟩ := Option.map_eq_some_iff.mp h
        cases eq
        obtain ⟨free, rfl⟩ := ih found
        exact ⟨by simp [Ne.symm other, free], rfl⟩
  · rintro ⟨free, rfl⟩
    exact splitOnce?_append free rest

end Text

namespace Registry

/-! ### Spellings -/

theorem spelling_append (a b : List Char) : spelling (a ++ b) = spelling a ++ spelling b := by
  simp [spelling, Text.lower]

theorem spelling_flatMap (words : List (List Char)) (f : List Char → List Char) :
    spelling (words.flatMap f) = words.flatMap fun w => spelling (f w) := by
  induction words with
  | nil => rfl
  | cons w words ih => rw [List.flatMap_cons, spelling_append, ih, List.flatMap_cons]

theorem spelling_underscore : spelling ['_'] = [] := by decide

theorem spelling_capitalize (word : List Char) : spelling (Text.capitalize word) = spelling word := by
  cases word with
  | nil => rfl
  | cons c cs =>
    by_cases h : c = '_'
    · subst h
      rfl
    · have other : c.toUpper ≠ '_' := by
        intro eq
        have lowered := congrArg Char.toLower eq
        rw [Char.toLower_toUpper_eq_toLower] at lowered
        exact h (Text.toLower_eq_underscore lowered)
      simp [Text.capitalize, spelling, Text.lower, h, other]

/-- A name in camel case is written like the name. -/
theorem spelling_camelCase (name : List Char) : spelling (camelCase name) = spelling name := by
  have words : ((Text.splitOn '_' name).filter (· ≠ [])).flatMap spelling =
      (Text.splitOn '_' name).flatMap spelling := by
    induction Text.splitOn '_' name with
    | nil => rfl
    | cons w words ih =>
      by_cases empty : w = []
      · subst empty
        simpa [spelling, Text.lower] using ih
      · simp [empty, ← ih]
  have joined := congrArg spelling (Text.splitOn_flatMap '_' name)
  simp only [spelling_flatMap, spelling_append, spelling_underscore, List.append_nil] at joined
  simp only [camelCase, spelling_flatMap, spelling_capitalize]
  rw [words, joined]

/-! ### Meanings -/

variable {ρ : Type} {r : Registry ρ}

/-- An action of the subject that is written like the rest of a flattened name. -/
def Candidate (r : Registry ρ) (subject : String) (rest : List Char) (action : String) : Prop :=
  (∃ b ∈ r.bindings, b.Under subject action) ∧ spelling action.toList = spelling rest

/-- A subject that is the beginning of a flattened name, up to the case of letters. -/
def Begins (r : Registry ρ) (verb : List Char) (subject : String) : Prop :=
  (∃ b ∈ r.bindings, b.subject = subject) ∧ Text.sameLetters subject.toList verb = true

theorem begins_iff {verb : List Char} (subject : String) :
    r.Begins verb subject ↔ subject ∈ r.subjects ∧ Text.sameLetters subject.toList verb = true := by
  rw [Begins, mem_subjects]

theorem candidate_iff {subject : String} {rest : List Char} (action : String) : r.Candidate subject rest action ↔
    action ∈ r.actionNames subject ∧ decide (spelling action.toList = spelling rest) = true := by
  rw [Candidate, mem_actionNames, decide_eq_true_iff]

/-- A name that stands for nothing, and one that stands for a subject and an action. -/
theorem unflatten?_cases (r : Registry ρ) (name : String) :
    (r.unflatten? name = none ∧ ∀ verb rest, '_' ∉ verb → name.toList = verb ++ '_' :: rest →
      verb = [] ∨ rest = [] ∨ ∀ subject, ¬r.Begins verb subject) ∨
    ∃ verb rest subject action, ('_' ∉ verb ∧ name.toList = verb ++ '_' :: rest ∧ verb ≠ [] ∧ rest ≠ []) ∧
      r.unflatten? name = some (subject, action) ∧ First (r.Begins verb) subject ∧
      (First (r.Candidate subject rest) action ∨
        (∀ other, ¬r.Candidate subject rest other) ∧ action = String.ofList (camelCase rest)) := by
  cases parts : Text.splitOnce? '_' name.toList with
  | none =>
    refine .inl ⟨by rw [unflatten?, parts], fun verb rest free written => ?_⟩
    rw [Text.splitOnce?_eq_some_iff.mpr ⟨free, written⟩] at parts
    cases parts
  | some parts' =>
    obtain ⟨verb, rest⟩ := parts'
    obtain ⟨free, written⟩ := Text.splitOnce?_eq_some_iff.mp parts
    -- There is one way to take the name apart.
    have sole {verb' rest' : List Char} (free' : '_' ∉ verb') (written' : name.toList = verb' ++ '_' :: rest') :
        verb' = verb ∧ rest' = rest := by
      rw [Text.splitOnce?_eq_some_iff.mpr ⟨free', written'⟩] at parts
      exact Prod.mk.inj (Option.some.inj parts)
    by_cases empty : verb = [] ∨ rest = []
    · refine .inl ⟨by simp only [unflatten?, parts, if_pos empty], fun verb' rest' free' written' => ?_⟩
      obtain ⟨rfl, rfl⟩ := sole free' written'
      exact empty.imp_right .inl
    · cases known : r.subjects.find? (fun s => Text.sameLetters s.toList verb) with
      | none =>
        refine .inl ⟨by simp only [unflatten?, parts, if_neg empty, known], fun verb' rest' free' written' => ?_⟩
        obtain ⟨rfl, rfl⟩ := sole free' written'
        refine .inr (.inr fun subject begins => ?_)
        obtain ⟨mem, same⟩ := (begins_iff subject).mp begins
        exact List.find?_eq_none.mp known subject mem same
      | some subject =>
        have first := (sortedNames_ascending _).first_of_find? (begins_iff (r := r)) known
        refine .inr ⟨verb, rest, subject, ?_⟩
        cases bound : (r.actionNames subject).find? (fun a => spelling a.toList = spelling rest) with
        | none =>
          refine ⟨_, ⟨free, written, not_or.mp empty⟩, by simp only [unflatten?, parts, if_neg empty, known, bound],
            first, .inr ⟨fun other candidate => ?_, rfl⟩⟩
          obtain ⟨mem, same⟩ := (candidate_iff other).mp candidate
          exact List.find?_eq_none.mp bound other mem same
        | some action =>
          refine ⟨action, ⟨free, written, not_or.mp empty⟩,
            by simp only [unflatten?, parts, if_neg empty, known, bound], first, .inl ?_⟩
          exact (sortedNames_ascending _).first_of_find? (candidate_iff (r := r)) bound

/-- The camel-cased rest of a name is bound only if some action is written like the rest. -/
theorem candidate_camelCase {subject : String} {rest : List Char}
    (bound : ∃ b ∈ r.bindings, b.Under subject (String.ofList (camelCase rest))) :
    r.Candidate subject rest (String.ofList (camelCase rest)) :=
  ⟨bound, by rw [String.toList_ofList, spelling_camelCase]⟩

theorem resolve_bound {subject action : String} (bound : ∃ b ∈ r.bindings, b.Under subject action)
    (platform : Platform) :
    r.resolve subject (some action) platform =
      match r.bindings.find? (·.Names subject action platform) with
      | none => .error (.noImplementation subject action platform)
      | some b => .ok b.recipe := by
  have reflects : r.Reflects r.bindings := fun _ _ _ => rfl
  have known : ∃ b ∈ r.bindings, b.subject = subject := bound.imp fun _ h => ⟨h.1, h.2.1⟩
  rw [reflects.resolve, resolution, if_pos known]
  exact if_pos bound

theorem resolve_unbound {subject action : String} (known : ∃ b ∈ r.bindings, b.subject = subject)
    (unbound : ¬∃ b ∈ r.bindings, b.Under subject action) (platform : Platform) :
    r.resolve subject (some action) platform = .error (.unknownAction subject action) := by
  have reflects : r.Reflects r.bindings := fun _ _ _ => rfl
  rw [reflects.resolve, resolution, if_pos known]
  exact if_neg unbound

/-- A flattened name stands for nothing exactly if there is no underscore with something on both sides, or no subject
is written like the part before the first one. Otherwise it stands for the first such subject and for the first action
that is written like the rest, which resolves to its recipe or has none on the platform. If no action is, the name's
action is unknown. -/
theorem flattened_resolves (r : Registry ρ) (name : String) (platform : Platform) :
    (r.unflatten? name = none ↔ ∀ verb rest, '_' ∉ verb → name.toList = verb ++ '_' :: rest →
      verb = [] ∨ rest = [] ∨ ∀ subject, ¬r.Begins verb subject) ∧
    ∀ subject action, r.unflatten? name = some (subject, action) →
      ∃ verb rest, '_' ∉ verb ∧ name.toList = verb ++ '_' :: rest ∧ First (r.Begins verb) subject ∧
        (r.resolve subject (some action) platform = .error (.unknownAction subject action) ↔
          ∀ other, ¬r.Candidate subject rest other) ∧
        (First (r.Candidate subject rest) action ∧ r.resolve subject (some action) platform =
            (match r.bindings.find? (·.Names subject action platform) with
            | none => .error (.noImplementation subject action platform)
            | some b => .ok b.recipe) ∨
          (∀ other, ¬r.Candidate subject rest other) ∧ action = String.ofList (camelCase rest) ∧
            ¬∃ b ∈ r.bindings, b.Under subject action) := by
  rcases r.unflatten?_cases name with
    ⟨nothing, reason⟩ | ⟨verb, rest, s, a, ⟨free, written, named, more⟩, meant, first, stands⟩
  · refine ⟨⟨fun _ => reason, fun _ => nothing⟩, fun subject action found => ?_⟩
    rw [nothing] at found
    cases found
  · constructor
    · constructor
      · intro nothing
        rw [meant] at nothing
        cases nothing
      · intro reason
        rcases reason verb rest free written with empty | empty | unknown
        · exact absurd empty named
        · exact absurd empty more
        · exact absurd first.holds (unknown s)
    · intro subject action found
      rw [meant, Option.some.injEq, Prod.mk.injEq] at found
      obtain ⟨rfl, rfl⟩ := found
      refine ⟨verb, rest, free, written, first, ?_⟩
      rcases stands with stands | ⟨none, rfl⟩
      · have resolved := resolve_bound stands.holds.1 platform
        refine ⟨⟨fun unknown => ?_, fun none => absurd stands.holds (none a)⟩, .inl ⟨stands, resolved⟩⟩
        rw [resolved] at unknown
        split at unknown <;> cases unknown
      · have unbound := mt candidate_camelCase (none (String.ofList (camelCase rest)))
        have resolved := resolve_unbound first.holds.1 unbound platform
        exact ⟨⟨fun _ => none, fun _ => resolved⟩, .inr ⟨none, rfl, unbound⟩⟩

end Registry

end Provisioning
