import Provisioning.Proofs.Registry.History

/-! What a failed call leaves in a registry. A call for one platform leaves nothing. A call for every platform stops at
the first duplicate: if that is on `linux`, its recipe stays bound on `osx`, and no other answer changes. -/

namespace Provisioning

variable {ρ : Type} {r : Registry ρ} {subject action : String} {recipe : ρ}

namespace Registry

/-- The two registries answer every question alike. -/
structure Alike (r r' : Registry ρ) : Prop where
  resolve (subject : String) (action : Option String) (platform : Platform) :
    r'.resolve subject action platform = r.resolve subject action platform
  subjects : r'.subjects = r.subjects
  actions (subject : String) : r'.actions subject = r.actions subject

theorem Alike.refl (r : Registry ρ) : r.Alike r := ⟨fun _ _ _ => rfl, rfl, fun _ => rfl⟩

/-- The second registry has the recipe on `osx` for an action that the first one has on `linux` alone. It answers every
other question alike. -/
structure Completes (r r' : Registry ρ) (subject action : String) (recipe : ρ) : Prop where
  missing : r.resolve subject (some action) .osx = .error (.noImplementation subject action .osx)
  bound : r'.resolve subject (some action) .osx = .ok recipe
  resolve (s : String) (a : Option String) (p : Platform) (other : ¬(s = subject ∧ a = some action ∧ p = .osx)) :
    r'.resolve s a p = r.resolve s a p
  subjects : r'.subjects = r.subjects
  listed : (action, [.linux]) ∈ r.actions subject
  actions (s : String) : r'.actions s = (r.actions s).map fun (a, platforms) =>
    (a, if s = subject ∧ a = action then [.osx, .linux] else platforms)

/-! ### One binding more -/

/-- The registry with a binding at its end. -/
def extended (r : Registry ρ) (b : Binding ρ) : Registry ρ := ⟨r.bindings ++ [b]⟩

variable {b : Binding ρ}

theorem exists_extended_iff {P : Binding ρ → Prop} (known : P b → ∃ x ∈ r.bindings, P x) :
    (∃ x ∈ (r.extended b).bindings, P x) ↔ ∃ x ∈ r.bindings, P x := by
  constructor
  · rintro ⟨x, hx, holds⟩
    rcases List.mem_append.mp hx with old | new
    · exact ⟨x, old, holds⟩
    · exact known (List.mem_singleton.mp new ▸ holds)
  · rintro ⟨x, hx, holds⟩
    exact ⟨x, List.mem_append_left _ hx, holds⟩

/-- Under all names but its own the new binding changes no recipe. -/
theorem recipe?_extended_of_ne {s a : String} {p : Platform} (other : ¬b.Names s a p) :
    (r.extended b).recipe? s a p = r.recipe? s a p := by
  rw [recipe?_eq, recipe?_eq, extended, List.find?_append]
  simp [other]

theorem recipe?_extended (free : r.recipe? b.subject b.action b.platform = none) :
    (r.extended b).recipe? b.subject b.action b.platform = some b.recipe := by
  rw [recipe?_eq, Option.map_eq_none_iff] at free
  rw [recipe?_eq, extended, List.find?_append, free]
  simp [Binding.Names, Binding.Under]

/-- A registry resolves what another one resolves if the two know the same actions and have the same recipe. -/
theorem resolve_congr {r' : Registry ρ} {s : String} {a : Option String} {p : Platform}
    (subject : r'.hasSubject s = r.hasSubject s) (action : ∀ name, r'.hasAction s name = r.hasAction s name)
    (recipe : ∀ name, a = some name → r'.recipe? s name p = r.recipe? s name p) :
    r'.resolve s a p = r.resolve s a p := by
  unfold resolve
  rw [subject]
  cases a with
  | none => rfl
  | some name =>
    dsimp only
    rw [action, recipe name rfl]

theorem subjects_congr {r' : Registry ρ}
    (same : ∀ s, (∃ b ∈ r'.bindings, b.subject = s) ↔ ∃ b ∈ r.bindings, b.subject = s) : r'.subjects = r.subjects := by
  have ascending (r : Registry ρ) : Ascending r.subjects := sortedNames_ascending _
  refine (ascending r').ext (ascending r) fun s => ?_
  rw [mem_subjects, mem_subjects, same]

theorem actionNames_congr {r' : Registry ρ} {s : String}
    (same : ∀ a, (∃ b ∈ r'.bindings, b.Under s a) ↔ ∃ b ∈ r.bindings, b.Under s a) :
    r'.actionNames s = r.actionNames s := by
  have ascending (r : Registry ρ) : Ascending (r.actionNames s) := sortedNames_ascending _
  refine (ascending r').ext (ascending r) fun a => ?_
  rw [mem_actionNames, mem_actionNames, same]

/-- A binding on `osx` for an action that has one on `linux`. -/
theorem completes_extended (free : r.recipe? subject action .osx = none)
    (taken : (r.recipe? subject action .linux).isSome = true) :
    r.Completes (r.extended ⟨subject, action, .osx, recipe⟩) subject action recipe := by
  obtain ⟨x, hx, ⟨sub, act⟩, -⟩ := recipe?_isSome_iff.mp taken
  have bindsSubject (s : String) :
      (∃ y ∈ (r.extended ⟨subject, action, .osx, recipe⟩).bindings, y.subject = s) ↔
        ∃ y ∈ r.bindings, y.subject = s :=
    exists_extended_iff fun same => ⟨x, hx, sub.trans same⟩
  have bindsAction (s a : String) :
      (∃ y ∈ (r.extended ⟨subject, action, .osx, recipe⟩).bindings, y.Under s a) ↔
        ∃ y ∈ r.bindings, y.Under s a :=
    exists_extended_iff fun same => ⟨x, hx, sub.trans same.1, act.trans same.2⟩
  have known : r.hasSubject subject = true := hasSubject_iff.mpr ⟨x, hx, sub⟩
  have bound : r.hasAction subject action = true := hasAction_iff.mpr ⟨x, hx, sub, act⟩
  refine ⟨?_, resolve_some (recipe?_extended free), fun s a p other => ?_, ?_, ?_, fun s => ?_⟩
  · simp [Registry.resolve, known, bound, free]
  · refine resolve_congr ?_ (fun name => ?_) fun name eq => recipe?_extended_of_ne ?_
    · rw [Bool.eq_iff_iff, hasSubject_iff, hasSubject_iff, bindsSubject]
    · rw [Bool.eq_iff_iff, hasAction_iff, hasAction_iff, bindsAction]
    · rintro ⟨⟨rfl, rfl⟩, rfl⟩
      exact other ⟨rfl, eq, rfl⟩
  · exact subjects_congr bindsSubject
  · refine List.mem_map.mpr ⟨action, mem_actionNames.mpr ⟨x, hx, sub, act⟩, ?_⟩
    simp [Platform.all, free, taken]
  · rw [Registry.actions, Registry.actions, actionNames_congr (bindsAction s), List.map_map]
    refine List.map_congr_left fun a _ => Prod.ext rfl ?_
    by_cases same : s = subject ∧ a = action
    · obtain ⟨rfl, rfl⟩ := same
      have own : (r.extended ⟨s, a, .osx, recipe⟩).recipe? s a .osx = some recipe := recipe?_extended free
      have apart : (r.extended ⟨s, a, .osx, recipe⟩).recipe? s a .linux = r.recipe? s a .linux :=
        recipe?_extended_of_ne (by simp [Binding.Names])
      simp [Platform.all, own, apart, taken]
    · have other (p : Platform) :
          (r.extended ⟨subject, action, .osx, recipe⟩).recipe? s a p = r.recipe? s a p :=
        recipe?_extended_of_ne fun named => same ⟨named.1.1.symm, named.1.2.symm⟩
      simp [same, other]

end Registry

/-! ### Failed calls -/

namespace Registry.Reflects

variable {past : List (Binding ρ)}

theorem isSome_iff (h : r.Reflects past) (b : Binding ρ) :
    (r.recipe? b.subject b.action b.platform).isSome = true ↔ b.Repeats past := recipe?_isSome_iff.trans h.names_iff

theorem one_failed (h : r.Reflects past) {b : Binding ρ} {e : RegistrationError}
    (failed : (r.insert b).1 = .error e) : (r.insert b).2 = r := by
  rcases h.insert b with ⟨-, eq⟩ | ⟨-, eq⟩
  · exact congrArg Prod.snd eq
  · rw [eq] at failed
    cases failed

/-- A call for every platform fails on `osx`, or it has bound its recipe there and fails on `linux`. -/
theorem everywhere_failed (h : r.Reflects past) {e : RegistrationError}
    (failed : ((Registration.everywhere subject action recipe).perform r).1 = .error e) :
    let osx : Binding ρ := ⟨subject, action, .osx, recipe⟩
    let linux : Binding ρ := ⟨subject, action, .linux, recipe⟩
    let r' := ((Registration.everywhere subject action recipe).perform r).2
    (osx.Repeats past ∧ r' = r) ∨ (¬osx.Repeats past ∧ linux.Repeats past ∧ r' = r.extended osx) := by
  intro osx linux r'
  have result : r' = ((Registration.everywhere subject action recipe).perform r).2 := rfl
  rw [Registration.perform_everywhere] at failed result
  rcases h.insert osx with ⟨repeats, eq⟩ | ⟨new, eq⟩
  · rw [eq] at result
    exact .inl ⟨repeats, result⟩
  · rw [eq] at failed result
    rcases (h.fresh osx).insert linux with ⟨repeats, eq'⟩ | ⟨-, eq'⟩ <;> dsimp only at failed result <;>
      rw [eq'] at failed result
    · refine .inr ⟨new, ?_, result⟩
      obtain ⟨x, hx, named⟩ := repeats
      rcases List.mem_append.mp hx with old | first
      · exact ⟨x, old, named⟩
      · rw [List.mem_singleton.mp first] at named
        cases named.2
    · cases failed

end Registry.Reflects

/-- A call that fails changes no answer, unless it is for every platform and its names are free on `osx`. Then they are
taken on `linux`, and the recipe is bound on `osx` afterwards. -/
theorem failed_call (calls : List (Registration ρ)) (call : Registration ρ) {e : RegistrationError}
    (failed : (call.perform (Registry.after calls)).1 = .error e) :
    let r := Registry.after calls
    let r' := (call.perform r).2
    match call with
    | .one _ => r.Alike r'
    | .everywhere subject action recipe =>
      if (⟨subject, action, .osx, recipe⟩ : Binding ρ).Repeats (history calls) then r.Alike r'
      else r.Completes r' subject action recipe := by
  intro r r'
  have reflects : r.Reflects (history calls) := .after calls
  cases call with
  | one b =>
    have same : r' = r := reflects.one_failed failed
    exact same ▸ .refl r
  | everywhere subject action recipe =>
    dsimp only
    rcases reflects.everywhere_failed failed with ⟨repeats, same⟩ | ⟨new, repeats, more⟩
    · have same : r' = r := same
      rw [if_pos repeats, same]
      exact .refl r
    · have more : r' = r.extended ⟨subject, action, .osx, recipe⟩ := more
      have free : r.recipe? subject action .osx = none :=
        Option.not_isSome_iff_eq_none.mp (mt (reflects.isSome_iff ⟨subject, action, .osx, recipe⟩).mp new)
      have taken : (r.recipe? subject action .linux).isSome = true :=
        (reflects.isSome_iff ⟨subject, action, .linux, recipe⟩).mpr repeats
      rw [if_neg new, more]
      exact Registry.completes_extended free taken

/-- An action that is bound on `linux`, and a call that binds it everywhere. -/
theorem failed_call_everywhere :
    let r : Registry Nat := Registry.after [.one ⟨"Install", "Git", .linux, 1⟩]
    let call : Registration Nat := .everywhere "Install" "Git" 2
    (call.perform r).1 = .error (.duplicate "Install" "Git" .linux) ∧
      r.Completes (call.perform r).2 "Install" "Git" 2 := by
  have failed : ((Registration.everywhere "Install" "Git" 2).perform
      (Registry.after [.one ⟨"Install", "Git", .linux, 1⟩])).1 = .error (.duplicate "Install" "Git" .linux) := by
    decide
  have left := failed_call [.one ⟨"Install", "Git", .linux, 1⟩] (.everywhere "Install" "Git" 2) failed
  dsimp only at left
  rw [if_neg (by decide)] at left
  exact ⟨failed, left⟩

/-- The call fails on `linux`, and an action that had no recipe on `osx` has one afterwards. -/
theorem failed_call_binds :
    let r : Registry Nat := Registry.after [.one ⟨"Install", "Git", .linux, 1⟩]
    let call : Registration Nat := .everywhere "Install" "Git" 2
    (call.perform r).1 = .error (.duplicate "Install" "Git" .linux) ∧
      r.resolve "Install" (some "Git") .osx = .error (.noImplementation "Install" "Git" .osx) ∧
      (call.perform r).2.resolve "Install" (some "Git") .osx = .ok 2 := by
  decide

end Provisioning
