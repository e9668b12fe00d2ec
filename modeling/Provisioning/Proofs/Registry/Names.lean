import Provisioning.Proofs.Registry.Resolve
import Provisioning.Proofs.Text.Order

/-! The names that a registry lists: each name that is bound, once, in the order of the names' bytes. -/

namespace Provisioning

theorem nodup_eraseDups {α : Type} [BEq α] [LawfulBEq α] (l : List α) : l.eraseDups.Nodup := by
  -- The recursion is on what is left of the rest, so the induction is on the length.
  generalize size : l.length = n
  induction n using Nat.strongRecOn generalizing l with
  | ind n ih =>
    cases l with
    | nil => exact .nil
    | cons a rest =>
      have shorter : (rest.filter fun b => !b == a).length < n := by
        rw [← size, List.length_cons]
        exact Nat.lt_succ_of_le (List.length_filter_le _ rest)
      rw [List.eraseDups_cons, List.nodup_cons]
      exact ⟨by simp, ih _ shorter _ rfl⟩

namespace Registry

variable {ρ : Type} {r : Registry ρ}

theorem mem_sortedNames {names : List String} {name : String} : name ∈ sortedNames names ↔ name ∈ names := by
  rw [sortedNames, List.mem_mergeSort, List.mem_eraseDups]

theorem sortedNames_ascending (names : List String) : Ascending (sortedNames names) := by
  have ascending : Ascending ((names.eraseDups.mergeSort (id · ≤ id ·)).map id) :=
    ascending_mergeSort (by simpa using nodup_eraseDups names)
  rw [List.map_id] at ascending
  exact ascending

theorem mem_subjects {subject : String} : subject ∈ r.subjects ↔ ∃ b ∈ r.bindings, b.subject = subject := by
  rw [subjects, mem_sortedNames, List.mem_map]

theorem mem_actionNames {subject action : String} :
    action ∈ r.actionNames subject ↔ ∃ b ∈ r.bindings, b.Under subject action := by
  simp [actionNames, mem_sortedNames, Binding.Under, and_assoc]

end Registry

end Provisioning
