import Mathlib.Data.List.DropRight
import Provisioning.Text.Blank

/-! The end of a list, cut off as far as it has a property. -/

namespace Provisioning.Text

variable {α : Type} {p : α → Bool}

theorem dropEndWhile_append_of_pos (l : List α) {tail : List α} (h : ∀ a ∈ tail, p a = true) :
    dropEndWhile p (l ++ tail) = dropEndWhile p l := by
  rw [dropEndWhile, List.reverse_append, List.dropWhile_append_of_pos fun a mem => h a (List.mem_reverse.mp mem),
    dropEndWhile]

theorem dropEndWhile_append {a : α} (h : p a = false) (l tail : List α) :
    dropEndWhile p (l ++ a :: tail) = l ++ a :: dropEndWhile p tail := by
  have kept : (a :: l.reverse).dropWhile p = a :: l.reverse := List.dropWhile_cons_of_neg (by simp [h])
  have reversed : (l ++ a :: tail).reverse = tail.reverse ++ a :: l.reverse := by simp
  rw [dropEndWhile, reversed, List.dropWhile_append, dropEndWhile]
  split
  · next none =>
    rw [List.isEmpty_iff.mp none, kept]
    simp
  · simp

theorem exists_dropped (p : α → Bool) (l : List α) :
    ∃ tail, l = dropEndWhile p l ++ tail ∧ ∀ a ∈ tail, p a = true :=
  ⟨l.rtakeWhile p, (List.rdropWhile_append_rtakeWhile (p := p) (l := l)).symm, fun _ => List.mem_rtakeWhile_imp⟩

theorem dropEndWhile_starts (p : α → Bool) (l : List α) : dropEndWhile p l <+: l := by
  obtain ⟨tail, eq, -⟩ := exists_dropped p l
  exact ⟨tail, eq.symm⟩

theorem of_getLast?_dropEndWhile {l : List α} {a : α} (h : (dropEndWhile p l).getLast? = some a) : p a = false := by
  have some : dropEndWhile p l ≠ [] := by
    rintro empty
    rw [empty] at h
    cases h
  rw [List.getLast?_eq_some_getLast some] at h
  rw [← Option.some.inj h]
  exact Bool.eq_false_iff.mpr (List.rdropWhile_last_not p l some)

theorem dropEndWhile_eq_self {l : List α} (h : ∀ a, l.getLast? = some a → p a = false) : dropEndWhile p l = l := by
  refine List.rdropWhile_eq_self_iff.mpr fun some => ?_
  rw [h _ (List.getLast?_eq_some_getLast some)]
  exact Bool.false_ne_true

/-! ### Blanks -/

theorem trimEnd_eq_self {cs : List Char} (h : ∀ c ∈ cs, isBlank c = false) : trimEnd cs = cs :=
  dropEndWhile_eq_self fun c last => h c (List.mem_of_getLast? last)

theorem trimEnd_append {cs : List Char} (nonempty : cs ≠ []) (h : trimEnd cs = cs) (lead : List Char) :
    trimEnd (lead ++ cs) = lead ++ cs := by
  refine dropEndWhile_eq_self fun c last => ?_
  rw [List.getLast?_append_of_ne_nil _ nonempty, ← h] at last
  exact of_getLast?_dropEndWhile last

end Provisioning.Text
