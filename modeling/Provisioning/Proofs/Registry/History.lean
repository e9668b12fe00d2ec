import Provisioning.Proofs.Registry.Names

/-! What a registry holds, told by the history of its insertions. The first insertion under three names counts and
later ones fail, whatever calls they are part of; look-ups and lists follow from the history alone. -/

namespace Provisioning

variable {ρ : Type}

/-- A call that adds recipes. -/
inductive Registration (ρ : Type) where
  | one (b : Binding ρ)
  /-- The same recipe on every platform, in their order up to the first duplicate. -/
  | everywhere (subject action : String) (recipe : ρ)

/-- Adds a recipe under its names. A failed insertion adds nothing. -/
def Registry.insert (r : Registry ρ) (b : Binding ρ) : Except RegistrationError Unit × Registry ρ :=
  match r.register b.subject b.action b.platform b.recipe with
  | .ok r => (.ok (), r)
  | .error e => (.error e, r)

/-- The outcome of a call and the registry after it. A failed call keeps what it had added. -/
def Registration.perform (r : Registry ρ) : Registration ρ → Except RegistrationError Unit × Registry ρ
  | .one b => r.insert b
  | .everywhere subject action recipe => r.registerOn subject action recipe Platform.all

theorem Registration.perform_everywhere (r : Registry ρ) (subject action : String) (recipe : ρ) :
    (everywhere subject action recipe).perform r =
      match r.insert ⟨subject, action, .osx, recipe⟩ with
      | (.ok (), r) => r.insert ⟨subject, action, .linux, recipe⟩
      | (.error e, r) => (.error e, r) := by
  simp only [perform, Platform.all, Registry.registerOn, Registry.insert]
  cases r.register subject action .osx recipe with
  | error e => rfl
  | ok r =>
    dsimp only
    cases r.register subject action .linux recipe <;> rfl

/-- The registry after calls, whatever failed among them. -/
def Registry.after (calls : List (Registration ρ)) : Registry ρ :=
  calls.foldl (fun r call => (call.perform r).2) .empty

/-! ### Histories -/

namespace Binding

/-- There is a binding under the same three names. -/
def Repeats (b : Binding ρ) (past : List (Binding ρ)) : Prop := ∃ x ∈ past, x.Names b.subject b.action b.platform

instance (b : Binding ρ) (past : List (Binding ρ)) : Decidable (b.Repeats past) :=
  inferInstanceAs (Decidable (∃ x ∈ past, _))

def duplicate (b : Binding ρ) : RegistrationError := .duplicate b.subject b.action b.platform

end Binding

/-- The insertions that a call makes, failed or not: a call for every platform is one for `osx` and then, unless that
one fails, one for `linux`. -/
def Registration.insertions (past : List (Binding ρ)) : Registration ρ → List (Binding ρ)
  | .one b => [b]
  | .everywhere subject action recipe =>
    let osx : Binding ρ := ⟨subject, action, .osx, recipe⟩
    if osx.Repeats past then [osx] else [osx, ⟨subject, action, .linux, recipe⟩]

def history (calls : List (Registration ρ)) : List (Binding ρ) :=
  calls.foldl (fun past call => past ++ call.insertions past) []

/-- The error of the first insertion that repeats an earlier one. -/
def Registration.outcome (past : List (Binding ρ)) (call : Registration ρ) : Except RegistrationError Unit :=
  match (call.insertions past).find? (·.Repeats past) with
  | none => .ok ()
  | some b => .error b.duplicate

/-- What names mean after a history. -/
def resolution (past : List (Binding ρ)) (subject : String) (action : Option String) (platform : Platform) :
    Except DispatchError ρ :=
  if ∃ b ∈ past, b.subject = subject then
    match action with
    | none => .error (.missingAction subject)
    | some action =>
      if ∃ b ∈ past, b.Under subject action then
        match past.find? (·.Names subject action platform) with
        | none => .error (.noImplementation subject action platform)
        | some b => .ok b.recipe
      else .error (.unknownAction subject action)
  else .error (.unknownSubject subject)

/-! ### Registries after a history -/

/-- Under any three names the registry holds the first insertion of the history, and nothing else. -/
def Registry.Reflects (r : Registry ρ) (past : List (Binding ρ)) : Prop :=
  ∀ subject action platform, r.bindings.find? (·.Names subject action platform) =
    past.find? (·.Names subject action platform)

namespace Registry.Reflects

variable {r : Registry ρ} {past : List (Binding ρ)}

theorem start : (Registry.empty : Registry ρ).Reflects [] := fun _ _ _ => rfl

theorem names_iff (h : r.Reflects past) {subject action : String} {platform : Platform} :
    (∃ b ∈ r.bindings, b.Names subject action platform) ↔ ∃ b ∈ past, b.Names subject action platform := by
  have same := congrArg Option.isSome (h subject action platform)
  rw [Bool.eq_iff_iff] at same
  simpa using same

theorem under_iff (h : r.Reflects past) {subject action : String} :
    (∃ b ∈ r.bindings, b.Under subject action) ↔ ∃ b ∈ past, b.Under subject action := by
  constructor
  · rintro ⟨b, hb, under⟩
    obtain ⟨x, hx, named⟩ := h.names_iff.mp ⟨b, hb, under, rfl⟩
    exact ⟨x, hx, named.1⟩
  · rintro ⟨b, hb, under⟩
    obtain ⟨x, hx, named⟩ := h.names_iff.mpr ⟨b, hb, under, rfl⟩
    exact ⟨x, hx, named.1⟩

theorem subject_iff (h : r.Reflects past) {subject : String} :
    (∃ b ∈ r.bindings, b.subject = subject) ↔ ∃ b ∈ past, b.subject = subject := by
  constructor
  · rintro ⟨b, hb, rfl⟩
    obtain ⟨x, hx, under⟩ := h.under_iff.mp ⟨b, hb, rfl, rfl⟩
    exact ⟨x, hx, under.1⟩
  · rintro ⟨b, hb, rfl⟩
    obtain ⟨x, hx, under⟩ := h.under_iff.mpr ⟨b, hb, rfl, rfl⟩
    exact ⟨x, hx, under.1⟩

/-! ### One insertion -/

/-- An insertion fails exactly if its names are taken, and then changes nothing. -/
theorem insert (h : r.Reflects past) (b : Binding ρ) :
    (b.Repeats past ∧ r.insert b = (.error b.duplicate, r)) ∨
      (¬b.Repeats past ∧ r.insert b = (.ok (), ⟨r.bindings ++ [b]⟩)) := by
  have known : (r.recipe? b.subject b.action b.platform).isSome = true ↔ b.Repeats past :=
    recipe?_isSome_iff.trans h.names_iff
  unfold Registry.insert register
  cases found : r.recipe? b.subject b.action b.platform with
  | some x => exact .inl ⟨known.mp (Option.isSome_of_eq_some found), rfl⟩
  | none =>
    rw [found] at known
    exact .inr ⟨fun repeats => Bool.noConfusion (known.mpr repeats), rfl⟩

theorem again (h : r.Reflects past) {b : Binding ρ} (repeats : b.Repeats past) : r.Reflects (past ++ [b]) := by
  intro subject action platform
  rw [h, List.find?_append]
  cases found : past.find? (·.Names subject action platform) with
  | some x => rfl
  | none =>
    have other : ¬b.Names subject action platform := by
      rintro ⟨⟨rfl, rfl⟩, rfl⟩
      obtain ⟨x, hx, named⟩ := repeats
      exact absurd (decide_eq_true named) (List.find?_eq_none.mp found x hx)
    simp [other]

theorem fresh (h : r.Reflects past) (b : Binding ρ) :
    (⟨r.bindings ++ [b]⟩ : Registry ρ).Reflects (past ++ [b]) := by
  intro subject action platform
  rw [List.find?_append, List.find?_append, h]

/-! ### Calls -/

theorem perform (h : r.Reflects past) (call : Registration ρ) :
    (call.perform r).1 = call.outcome past ∧ (call.perform r).2.Reflects (past ++ call.insertions past) := by
  cases call with
  | one b =>
    rw [Registration.perform, Registration.outcome, Registration.insertions]
    rcases h.insert b with ⟨repeats, eq⟩ | ⟨new, eq⟩
    · rw [eq]
      exact ⟨by simp [repeats], h.again repeats⟩
    · rw [eq]
      exact ⟨by simp [new], h.fresh b⟩
  | everywhere subject action recipe =>
    rw [Registration.perform_everywhere, Registration.outcome, Registration.insertions]
    generalize osx : (⟨subject, action, .osx, recipe⟩ : Binding ρ) = first
    generalize linux : (⟨subject, action, .linux, recipe⟩ : Binding ρ) = second
    -- The first insertion takes no names from the second, which is for another platform.
    have apart : second.Repeats (past ++ [first]) ↔ second.Repeats past := by
      simp [Binding.Repeats, Binding.Names, ← osx, ← linux, or_and_right, exists_or]
    rcases h.insert first with ⟨repeats, eq⟩ | ⟨new, eq⟩
    · rw [eq]
      exact ⟨by simp [repeats], by simpa [repeats] using h.again repeats⟩
    · have reflects := h.fresh first
      rw [eq]
      rcases reflects.insert second with ⟨repeats, eq⟩ | ⟨new', eq⟩ <;> dsimp only <;> rw [eq]
      · exact ⟨by simp [new, apart.mp repeats], by simpa [new] using reflects.again repeats⟩
      · exact ⟨by simp [new, mt apart.mpr new'], by simpa [new] using reflects.fresh second⟩

theorem after (calls : List (Registration ρ)) : (Registry.after calls).Reflects (history calls) := by
  have step (calls : List (Registration ρ)) {r : Registry ρ} {past : List (Binding ρ)} (h : r.Reflects past) :
      (calls.foldl (fun r call => (call.perform r).2) r).Reflects
        (calls.foldl (fun past call => past ++ call.insertions past) past) := by
    induction calls generalizing r past with
    | nil => exact h
    | cons call rest ih => exact ih (h.perform call).2
  exact step calls start

/-! ### Look-ups -/

theorem resolve (h : r.Reflects past) (subject : String) (action : Option String) (platform : Platform) :
    r.resolve subject action platform = resolution past subject action platform := by
  unfold Registry.resolve resolution
  have known : r.hasSubject subject = true ↔ ∃ b ∈ past, b.subject = subject := hasSubject_iff.trans h.subject_iff
  by_cases found : ∃ b ∈ past, b.subject = subject
  · rw [known.mpr found, if_pos found]
    cases action with
    | none => rfl
    | some action =>
      have bound : r.hasAction subject action = true ↔ ∃ b ∈ past, b.Under subject action :=
        hasAction_iff.trans h.under_iff
      by_cases found : ∃ b ∈ past, b.Under subject action
      · simp only [bound.mpr found, if_pos found, recipe?_eq, h subject action platform]
        cases past.find? (·.Names subject action platform) <;> rfl
      · have unbound : r.hasAction subject action = false := Bool.eq_false_iff.mpr (mt bound.mp found)
        simp only [unbound, if_neg found]
        rfl
  · rw [Bool.eq_false_iff.mpr (mt known.mp found), if_neg found]
    rfl

end Registry.Reflects

/-! ### Lists -/

/-- The lists of a registry after a history: what was inserted, each name once in the order of the bytes, and for each
action its platforms in their order. -/
structure Registry.Lists (r : Registry ρ) (past : List (Binding ρ)) : Prop where
  subjects (subject : String) : subject ∈ r.subjects ↔ ∃ b ∈ past, b.subject = subject
  subjects_ascending : Ascending r.subjects
  actions (subject action : String) (platforms : List Platform) :
    (action, platforms) ∈ r.actions subject ↔ (∃ b ∈ past, b.Under subject action) ∧
      platforms = [.osx, .linux].filter fun p => ∃ b ∈ past, b.Names subject action p
  actions_ascending (subject : String) : Ascending ((r.actions subject).map Prod.fst)
  implemented (subject : String) : ∀ x ∈ r.actions subject, x.2 ≠ []

theorem Registry.Reflects.lists {r : Registry ρ} {past : List (Binding ρ)} (h : r.Reflects past) :
    r.Lists past := by
  have platforms (subject action : String) :
      (Platform.all.filter fun p => (r.recipe? subject action p).isSome) =
        [.osx, .linux].filter fun p => ∃ b ∈ past, b.Names subject action p := by
    refine List.filter_congr fun p _ => ?_
    rw [Bool.eq_iff_iff, Registry.recipe?_isSome_iff, h.names_iff, decide_eq_true_iff]
  have actions (subject action : String) (ps : List Platform) :
      (action, ps) ∈ r.actions subject ↔ (∃ b ∈ past, b.Under subject action) ∧
        ps = [.osx, .linux].filter fun p => ∃ b ∈ past, b.Names subject action p := by
    rw [← platforms, ← h.under_iff, ← Registry.mem_actionNames, Registry.actions, List.mem_map]
    constructor
    · rintro ⟨name, listed, eq⟩
      obtain ⟨rfl, rfl⟩ := Prod.mk.inj eq
      exact ⟨listed, rfl⟩
    · rintro ⟨listed, rfl⟩
      exact ⟨action, listed, rfl⟩
  refine ⟨fun subject => Registry.mem_subjects.trans h.subject_iff, Registry.sortedNames_ascending _, actions, ?_, ?_⟩
  · intro subject
    rw [Registry.actions, List.map_map]
    have names : (r.actionNames subject).map (Prod.fst ∘ fun action =>
        (action, Platform.all.filter fun p => (r.recipe? subject action p).isSome)) = r.actionNames subject :=
      List.map_id _
    rw [names]
    exact Registry.sortedNames_ascending _
  · rintro subject ⟨action, ps⟩ listed empty
    obtain ⟨⟨b, hb, under⟩, rfl⟩ := (actions subject action ps).mp listed
    have none := List.filter_eq_nil_iff.mp empty b.platform (by cases b.platform <;> simp)
    exact none (decide_eq_true ⟨b, hb, under, rfl⟩)

/-! ### The main statement -/

/-- Whatever calls were made, failed ones among them: an insertion fails exactly if its names are taken, and the
registry answers and lists what the history tells. -/
theorem history_decides (calls : List (Registration ρ)) :
    let r := Registry.after calls
    let past := history calls
    (∀ b : Binding ρ, (r.insert b).1 = if b.Repeats past then .error b.duplicate else .ok ()) ∧
      (∀ call : Registration ρ, (call.perform r).1 = call.outcome past) ∧
      (∀ subject action platform, r.resolve subject action platform = resolution past subject action platform) ∧
      r.Lists past := by
  intro r past
  have reflects : r.Reflects past := .after calls
  refine ⟨fun b => ?_, fun call => (reflects.perform call).1, reflects.resolve, reflects.lists⟩
  rcases reflects.insert b with ⟨repeats, eq⟩ | ⟨new, eq⟩
  · rw [eq, if_pos repeats]
  · rw [eq, if_neg new]

end Provisioning
