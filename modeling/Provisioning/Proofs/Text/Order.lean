import Mathlib.Data.List.Nodup
import Provisioning.Proofs.Text.Utf8

/-! Lists sorted by texts. When no two elements have the same text, it does not matter in which order they came. -/

namespace Provisioning

/-- The names come in the order of their bytes, each once. -/
def Ascending (names : List String) : Prop := names.Pairwise fun a b => Text.utf8 a < Text.utf8 b

variable {α : Type} {key : α → String} {l l' : List α}

theorem sorted_mergeSort (key : α → String) (l : List α) :
    (l.mergeSort (key · ≤ key ·)).Pairwise (key · ≤ key ·) := by
  have sorted : (l.mergeSort (key · ≤ key ·)).Pairwise fun a b => decide (key a ≤ key b) = true :=
    List.pairwise_mergeSort (by simpa using fun _ _ _ => String.le_trans)
      (by simpa using fun _ _ => String.le_total _ _) l
  exact sorted.imp of_decide_eq_true

theorem ascending_mergeSort (distinct : (l.map key).Nodup) :
    Ascending ((l.mergeSort (key · ≤ key ·)).map key) := by
  have sorted := List.pairwise_map.mpr (sorted_mergeSort key l)
  have distinct : ((l.mergeSort (key · ≤ key ·)).map key).Nodup :=
    ((List.mergeSort_perm l _).map key).nodup_iff.mpr distinct
  refine (List.pairwise_and_iff.mpr ⟨sorted, distinct⟩).imp fun {a b} h => Text.utf8_lt ?_
  obtain ⟨le, ne⟩ := h
  exact String.not_le.mp fun ge => ne (String.le_antisymm le ge)

theorem mergeSort_eq_of_perm (perm : l.Perm l') (distinct : (l.map key).Nodup) :
    l.mergeSort (key · ≤ key ·) = l'.mergeSort (key · ≤ key ·) := by
  have sole {a b : α} (ha : a ∈ l) (hb : b ∈ l) (same : key a = key b) : a = b :=
    List.inj_on_of_nodup_map distinct ha hb same
  refine List.Perm.eq_of_pairwise ?_ (sorted_mergeSort key l) (sorted_mergeSort key l') ?_
  · intro a b ha hb le ge
    rw [List.mem_mergeSort] at ha hb
    exact sole ha (perm.mem_iff.mpr hb) (String.le_antisymm le ge)
  · exact (List.mergeSort_perm l _).trans (perm.trans (List.mergeSort_perm l' _).symm)

theorem Ascending.nodup {names : List String} (h : Ascending names) : names.Nodup :=
  h.imp fun {a b} lt eq => by
    rw [eq] at lt
    exact List.lt_irrefl _ lt

theorem Ascending.ext {names names' : List String} (h : Ascending names) (h' : Ascending names')
    (same : ∀ name, name ∈ names ↔ name ∈ names') : names = names' := by
  refine List.Perm.eq_of_pairwise ?_ h h' ((List.perm_ext_iff_of_nodup h.nodup h'.nodup).mpr same)
  intro a b _ _ lt gt
  exact absurd gt (List.lt_asymm lt)

end Provisioning
