import Mathlib.Tactic.SplitIfs
import Provisioning.Text.Ascii

/-! The bytes of texts. They tell the text, and they are in the order of the characters: an encoding that is longer
starts with a greater byte, and encodings of one length have the digits of the character in them. -/

namespace Provisioning.Text

/-! ### Characters -/

/-- Numbers in their order are in the order of their digits to the base 64. -/
theorem lt_digits {v w : Nat} (h : v < w) : v / 262144 < w / 262144 ∨
    v / 262144 = w / 262144 ∧ (v / 4096 % 64 < w / 4096 % 64 ∨
      v / 4096 % 64 = w / 4096 % 64 ∧ (v / 64 % 64 < w / 64 % 64 ∨
        v / 64 % 64 = w / 64 % 64 ∧ v % 64 < w % 64)) := by
  have split {v w : Nat} (h : v < w) : v / 64 < w / 64 ∨ v / 64 = w / 64 ∧ v % 64 < w % 64 := by omega
  have base (n : Nat) : n / 4096 = n / 64 / 64 ∧ n / 262144 = n / 64 / 64 / 64 := by omega
  rw [(base v).1, (base v).2, (base w).1, (base w).2]
  rcases split h with h | ⟨h, last⟩
  · rcases split h with h | ⟨h, last⟩
    · rcases split h with h | ⟨h, last⟩
      · exact .inl h
      · exact .inr ⟨h, .inl last⟩
    · exact .inr ⟨by rw [h], .inr ⟨by rw [h], .inl last⟩⟩
  · exact .inr ⟨by rw [h], .inr ⟨by rw [h], .inr ⟨by rw [h], last⟩⟩⟩

/-- Encodings of characters are in the order of the characters, whatever comes after them. -/
theorem encode_before {c d : Char} (h : c < d) (a b : List UInt8) :
    String.utf8EncodeChar c ++ a < String.utf8EncodeChar d ++ b := by
  have lt : c.val.toNat < d.val.toNat := h
  have bound : d.val.toNat < 0x110000 := by
    rcases d.valid with h | ⟨-, h⟩
    · exact Nat.lt_trans h (by decide)
    · exact h
  unfold String.utf8EncodeChar
  dsimp only
  generalize c.val.toNat = v at lt ⊢
  generalize d.val.toNat = w at lt bound ⊢
  by_cases long : 0xffff < v
  · -- Both have four bytes.
    have low (n : Nat) : (n % 64 + 128) % 2 ^ 8 = n % 64 + 128 := by omega
    have high {n : Nat} (h : n < 0x110000) : (n / 262144 % 8 + 240) % 2 ^ 8 = n / 262144 + 240 := by omega
    iterate 6 rw [if_neg (by omega)]
    simp only [List.cons_append, List.cons_lt_cons_iff, UInt8.lt_iff_toNat_lt, ← UInt8.toNat_inj,
      UInt8.toNat_ofNat', low, high bound, high (Nat.lt_trans lt bound), Nat.add_lt_add_iff_right,
      Nat.add_right_cancel_iff]
    rcases lt_digits lt with h | ⟨h, h' | ⟨h', h'' | ⟨h'', last⟩⟩⟩
    · exact .inl h
    · exact .inr ⟨h, .inl h'⟩
    · exact .inr ⟨h, .inr ⟨h', .inl h''⟩⟩
    · exact .inr ⟨h, .inr ⟨h', .inr ⟨h'', .inl last⟩⟩⟩
  · -- The longer one starts with the greater byte.
    split_ifs
    all_goals
      simp only [List.cons_append, List.cons_lt_cons_iff, UInt8.lt_iff_toNat_lt, ← UInt8.toNat_inj,
        UInt8.toNat_ofNat']
      omega

/-! ### Texts -/

theorem ofUtf8?_utf8 (s : String) : ofUtf8? (utf8 s) = some s := by
  have bytes : (⟨(utf8 s).toArray⟩ : ByteArray) = s.toByteArray := by
    rw [utf8, String.toUTF8_eq_toByteArray, Array.toArray_toList]
  rw [ofUtf8?, bytes, String.fromUTF8?, dif_pos s.isValidUTF8]
  rfl

theorem utf8_of_ofUtf8? {bytes : List UInt8} {s : String} (h : ofUtf8? bytes = some s) : utf8 s = bytes := by
  unfold ofUtf8? String.fromUTF8? at h
  split at h
  · obtain rfl := Option.some.inj h
    rfl
  · cases h

theorem utf8_eq (s : String) : utf8 s = s.toList.flatMap String.utf8EncodeChar := by
  conv => lhs; rw [← String.ofList_toList (s := s)]
  rw [utf8, String.toUTF8_eq_toByteArray, String.toByteArray_ofList, List.utf8Encode, List.data_toByteArray]

/-- Texts in their order are in the order of their bytes. -/
theorem utf8_lt {s t : String} (h : s < t) : utf8 s < utf8 t := by
  rw [utf8_eq, utf8_eq]
  have lex : s.toList < t.toList := h
  generalize s.toList = l at lex
  generalize t.toList = l' at lex
  induction lex with
  | @nil c l =>
    cases encoded : String.utf8EncodeChar c with
    | nil => exact absurd encoded String.utf8EncodeChar_ne_nil
    | cons b bs =>
      rw [List.flatMap_cons, encoded]
      exact .nil
  | rel before => exact encode_before before _ _
  | cons _ ih => exact List.append_left_lt ih

end Provisioning.Text
