import Provisioning.Decimal.Layout

/-! Numbers in decimal digits. The digits of a number give the number back, and of a text that begins with
them they are what a reader of digits takes, unless another digit follows. -/

namespace Provisioning.Decimal

theorem toList_digitText (n : Nat) : (digitText n).toList = Nat.toDigits 10 n := String.toList_ofList

theorem isDigit_of_mem_digitText {n : Nat} {c : Char} (h : c ∈ (digitText n).toList) : c.isDigit = true := by
  rw [toList_digitText] at h
  exact Nat.isDigit_of_mem_toDigits (by decide) (by decide) h

theorem digitText_ne_nil (n : Nat) : (digitText n).toList ≠ [] := by
  rw [toList_digitText]
  exact Nat.toDigits_ne_nil

theorem ofDigits_digitText (n : Nat) : ofDigits (digitText n).toList = n := by
  have read := Nat.ofDigitChars_ten_toDigits (n := n)
  rw [Nat.ofDigitChars_eq_foldl] at read
  rw [toList_digitText]
  exact read

theorem digitText_injective {m n : Nat} (h : digitText m = digitText n) : m = n := by
  rw [← ofDigits_digitText m, h, ofDigits_digitText]

/-- Only zero begins with a zero. -/
theorem toDigits_head_ne_zero {n : Nat} (h : 0 < n) : (Nat.toDigits 10 n).head? ≠ some '0' := by
  induction n using Nat.strongRecOn with
  | ind n ih =>
    by_cases small : n < 10
    · rw [Nat.toDigits_of_lt_base small]
      have digits : ∀ k < 10, 0 < k → [Nat.digitChar k].head? ≠ some '0' := by decide
      exact digits n small h
    · have shorter : 0 < n / 10 := by omega
      have leading := ih (n / 10) (by omega) shorter
      obtain ⟨d, ds, eq⟩ := List.exists_cons_of_ne_nil (Nat.toDigits_ne_nil (n := n / 10) (b := 10))
      rw [Nat.toDigits_of_base_le (by decide) (by omega), eq]
      rw [eq] at leading
      exact leading

/-- No zero stands before another digit. -/
theorem digitText_ne_zero_cons (n : Nat) (c : Char) (cs : List Char) :
    (digitText n).toList ≠ '0' :: c :: cs := by
  intro h
  rw [toList_digitText] at h
  rcases Nat.eq_zero_or_pos n with rfl | positive
  · rw [Nat.toDigits_zero] at h
    cases h
  · exact toDigits_head_ne_zero positive (by rw [h]; rfl)

/-- A text that begins with a digit. -/
def startsWithDigit (cs : List Char) : Bool := cs.head?.any Char.isDigit

section

variable {rest : List Char} (h : startsWithDigit rest = false)

include h

theorem takeWhile_digitText_append (n : Nat) :
    ((digitText n).toList ++ rest).takeWhile Char.isDigit = (digitText n).toList := by
  rw [List.takeWhile_append_of_pos fun _ => isDigit_of_mem_digitText]
  cases rest with
  | nil => simp
  | cons c cs => simp [show c.isDigit = false from h]

theorem dropWhile_digitText_append (n : Nat) :
    ((digitText n).toList ++ rest).dropWhile Char.isDigit = rest := by
  rw [List.dropWhile_append_of_pos fun _ => isDigit_of_mem_digitText]
  cases rest with
  | nil => simp
  | cons c cs => simp [show c.isDigit = false from h]

end

end Provisioning.Decimal
