import Provisioning.Registry

/-! Look-ups in a registry, told by the bindings in it. -/

namespace Provisioning

variable {ρ : Type}

namespace Binding

def Under (b : Binding ρ) (subject action : String) : Prop := b.subject = subject ∧ b.action = action

/-- The binding is one for an action of a subject on a platform. -/
def Names (b : Binding ρ) (subject action : String) (platform : Platform) : Prop :=
  b.Under subject action ∧ b.platform = platform

instance (b : Binding ρ) (subject action : String) : Decidable (b.Under subject action) :=
  inferInstanceAs (Decidable (_ ∧ _))

instance (b : Binding ρ) (subject action : String) (platform : Platform) :
    Decidable (b.Names subject action platform) := inferInstanceAs (Decidable (_ ∧ _))

end Binding

namespace Registry

variable {r : Registry ρ} {subject action : String} {platform : Platform} {recipe : ρ}

theorem hasSubject_iff : r.hasSubject subject = true ↔ ∃ b ∈ r.bindings, b.subject = subject := by
  simp [hasSubject]

theorem mem_under {b : Binding ρ} : b ∈ r.under subject action ↔ b ∈ r.bindings ∧ b.Under subject action := by
  simp [under, Binding.Under]

theorem hasAction_iff : r.hasAction subject action = true ↔ ∃ b ∈ r.bindings, b.Under subject action := by
  rw [hasAction, Bool.not_eq_true', List.isEmpty_eq_false_iff_exists_mem]
  simp only [mem_under]

theorem recipe?_eq (r : Registry ρ) (subject action : String) (platform : Platform) :
    r.recipe? subject action platform =
      (r.bindings.find? (·.Names subject action platform)).map (·.recipe) := by
  rw [recipe?, under, List.find?_filter]
  congr 2
  funext b
  rw [Bool.eq_iff_iff]
  simp only [decide_eq_true_eq]
  rfl

theorem recipe?_isSome_iff : (r.recipe? subject action platform).isSome = true ↔
    ∃ b ∈ r.bindings, b.Names subject action platform := by
  simp [recipe?_eq]

theorem resolve_some (h : r.recipe? subject action platform = some recipe) :
    r.resolve subject (some action) platform = .ok recipe := by
  obtain ⟨b, hb, named⟩ := recipe?_isSome_iff.mp (Option.isSome_of_eq_some h)
  have known : r.hasSubject subject = true := hasSubject_iff.mpr ⟨b, hb, named.1.1⟩
  have bound : r.hasAction subject action = true := hasAction_iff.mpr ⟨b, hb, named.1⟩
  simp [resolve, known, bound, h]

/-- A statement has a recipe exactly if it names an action that has one on the platform. -/
theorem resolve_eq_ok {action : Option String} : r.resolve subject action platform = .ok recipe ↔
    ∃ name, action = some name ∧ r.recipe? subject name platform = some recipe := by
  constructor
  · intro h
    unfold resolve at h
    split at h
    · cases h
    · cases action with
      | none => cases h
      | some name =>
        dsimp only at h
        split at h
        · cases h
        · cases found : r.recipe? subject name platform with
          | none =>
            rw [found] at h
            cases h
          | some x =>
            rw [found] at h
            obtain rfl := Except.ok.inj h
            exact ⟨name, rfl, found⟩
  · rintro ⟨name, rfl, found⟩
    exact resolve_some found

end Registry

end Provisioning
