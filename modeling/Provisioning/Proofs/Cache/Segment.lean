import Mathlib.Logic.Function.Basic
import Provisioning.Cache.Segment
import Provisioning.Proofs.Host.Steps
import Provisioning.Proofs.Text.Utf8

/-! The names of URLs in the cache. A name tells its URL, and a text that is no name of a URL tells none. Names are
decoded by indices of bytes, which comes to the same as character by character. -/

namespace Provisioning.Cache.Segment

open Host Text

/-! ### Characters -/

theorem isAlphanum_iff {c : Char} : c.isAlphanum ↔
    65 ≤ c.toNat ∧ c.toNat ≤ 90 ∨ 97 ≤ c.toNat ∧ c.toNat ≤ 122 ∨ 48 ≤ c.toNat ∧ c.toNat ≤ 57 := by
  have upper : c.isUpper ↔ 65 ≤ c.toNat ∧ c.toNat ≤ 90 := decide_eq_true_iff
  have lower : c.isLower ↔ 97 ≤ c.toNat ∧ c.toNat ≤ 122 :=
    Bool.and_eq_true_iff.trans (and_congr decide_eq_true_iff decide_eq_true_iff)
  have digit : c.isDigit ↔ 48 ≤ c.toNat ∧ c.toNat ≤ 57 :=
    Bool.and_eq_true_iff.trans (and_congr decide_eq_true_iff decide_eq_true_iff)
  have letter : c.isAlpha ↔ c.isUpper ∨ c.isLower := Bool.or_eq_true_iff
  have plain : c.isAlphanum ↔ c.isAlpha ∨ c.isDigit := Bool.or_eq_true_iff
  rw [plain, letter, upper, lower, digit, or_assoc]

theorem isAlphanumByte_iff {b : UInt8} : isAlphanumByte b ↔
    65 ≤ b.toNat ∧ b.toNat ≤ 90 ∨ 97 ≤ b.toNat ∧ b.toNat ≤ 122 ∨ 48 ≤ b.toNat ∧ b.toNat ≤ 57 := by
  simp only [isAlphanumByte, Bool.or_eq_true, Bool.and_eq_true, decide_eq_true_eq, UInt8.le_iff_toNat_le]
  rw [or_assoc, or_comm, or_assoc]
  exact Iff.rfl

theorem toNat_lt_of_isAlphanum {c : Char} (h : c.isAlphanum) : c.toNat < 128 := by
  have range := isAlphanum_iff.mp h
  omega

theorem toNat_ofNat (n : Nat) (h : n < 256) : (Char.ofNat n).toNat = n := by
  have valid : n.isValidChar := .inl (Nat.lt_trans h (by decide))
  rw [Char.ofNat, dif_pos valid]
  rfl

/-- The plain characters are those of the plain bytes. -/
theorem isAlphanum_ofNat (n : Nat) (h : n < 256) : (Char.ofNat n).isAlphanum = isAlphanumByte (UInt8.ofNat n) := by
  have byte : (UInt8.ofNat n).toNat = n := by
    rw [UInt8.toNat_ofNat']
    omega
  rw [Bool.eq_iff_iff, isAlphanum_iff, isAlphanumByte_iff, toNat_ofNat n h, byte]

theorem upperHexValue?_upperHexDigit : ∀ n < 16, upperHexValue? (upperHexDigit n) = some n := by
  decide

theorem upperHexDigit_of_value {c : Char} {n : Nat} (h : upperHexValue? c = some n) :
    n < 16 ∧ upperHexDigit n = c := by
  have nat (c d : Char) : c ≤ d ↔ c.toNat ≤ d.toNat := Iff.rfl
  have zero : '0'.toNat = 48 := rfl
  have nine : '9'.toNat = 57 := rfl
  have a : 'A'.toNat = 65 := rfl
  have f : 'F'.toNat = 70 := rfl
  simp only [upperHexValue?, Bool.and_eq_true, decide_eq_true_eq, nat] at h
  split at h
  · obtain rfl := Option.some.inj h
    refine ⟨by omega, ?_⟩
    rw [upperHexDigit, if_pos (by omega), show 48 + (c.toNat - 48) = c.toNat by omega, Char.ofNat_toNat]
  · split at h
    · obtain rfl := Option.some.inj h
      refine ⟨by omega, ?_⟩
      rw [upperHexDigit, if_neg (by omega), show 55 + (c.toNat - 55) = c.toNat by omega, Char.ofNat_toNat]
    · cases h

theorem lt_of_value {b : UInt8} {n : Nat} (h : hexValue? b = some n) : b.toNat < 128 := by
  obtain ⟨small, digit⟩ := upperHexDigit_of_value h
  have ascii : ∀ n < 16, (upperHexDigit n).toNat < 128 := by decide
  have bound := ascii n small
  rwa [digit, toNat_ofNat b.toNat b.toNat_lt] at bound

theorem hexValue?_of_value {c : Char} {n : Nat} (h : upperHexValue? c = some n) :
    c.toNat < 128 ∧ hexValue? (UInt8.ofNat c.toNat) = some n := by
  obtain ⟨small, rfl⟩ := upperHexDigit_of_value h
  have ascii : ∀ n < 16, (upperHexDigit n).toNat < 128 ∧
      hexValue? (UInt8.ofNat (upperHexDigit n).toNat) = some n := by decide
  exact ascii n small

/-! ### The walk over characters -/

/-- What the bytes of characters are decoded to, told by the characters. -/
def decodeChars? : List Char → Option (List UInt8)
  | [] => some []
  | '_' :: high :: low :: rest =>
    match upperHexValue? high, upperHexValue? low with
    | some h, some l =>
      let b := UInt8.ofNat (16 * h + l)
      if isAlphanumByte b then none else (decodeChars? rest).map (b :: ·)
    | _, _ => none
  | c :: rest =>
    if c.isAlphanum then (decodeChars? rest).map (UInt8.ofNat c.toNat :: ·) else none

theorem encodeBytes_cons (b : UInt8) (bytes : List UInt8) :
    encodeBytes (b :: bytes) = encodeByte b ++ encodeBytes bytes := List.flatMap_cons

theorem decodeChars?_cons_of_isAlphanum {c : Char} (h : c.isAlphanum) (rest : List Char) :
    decodeChars? (c :: rest) = (decodeChars? rest).map (UInt8.ofNat c.toNat :: ·) := by
  have plain : c ≠ '_' := by rintro rfl; cases h
  rw [decodeChars?, if_pos h]
  intro high low tail eq
  exact absurd eq plain

theorem decodeChars?_encodeByte_append (b : UInt8) (rest : List Char) :
    decodeChars? (encodeByte b ++ rest) = (decodeChars? rest).map (b :: ·) := by
  have small := b.toNat_lt
  unfold encodeByte
  split
  · next plain =>
    have letter : (Char.ofNat b.toNat).isAlphanum := by
      rw [isAlphanum_ofNat b.toNat small, UInt8.ofNat_toNat]
      exact plain
    rw [List.singleton_append, decodeChars?_cons_of_isAlphanum letter, toNat_ofNat b.toNat small,
      UInt8.ofNat_toNat]
  · next escaped =>
    have whole : 16 * (b.toNat / 16) + b.toNat % 16 = b.toNat := by omega
    simp only [List.cons_append, List.nil_append, decodeChars?,
      upperHexValue?_upperHexDigit (b.toNat / 16) (by omega),
      upperHexValue?_upperHexDigit (b.toNat % 16) (by omega), whole, UInt8.ofNat_toNat, if_neg escaped]

theorem decodeChars?_encodeBytes (bytes : List UInt8) : decodeChars? (encodeBytes bytes) = some bytes := by
  induction bytes with
  | nil => rfl
  | cons b bytes ih => rw [encodeBytes_cons, decodeChars?_encodeByte_append, ih, Option.map_some]

theorem encodeByte_ofNat {c : Char} (h : c.isAlphanum) : encodeByte (UInt8.ofNat c.toNat) = [c] := by
  have small := toNat_lt_of_isAlphanum h
  have plain : isAlphanumByte (UInt8.ofNat c.toNat) = true := by
    rw [← isAlphanum_ofNat c.toNat (by omega), Char.ofNat_toNat, h]
  have value : (UInt8.ofNat c.toNat).toNat = c.toNat := by
    rw [UInt8.toNat_ofNat']
    omega
  rw [encodeByte, if_pos plain, value, Char.ofNat_toNat]

theorem encodeBytes_of_decodeChars? {cs : List Char} {bytes : List UInt8} (h : decodeChars? cs = some bytes) :
    encodeBytes bytes = cs := by
  fun_induction decodeChars? cs generalizing bytes with
  | case1 =>
    obtain rfl := Option.some.inj h
    rfl
  | case2 => cases h
  | case3 high low rest m n lowValue highValue b escaped =>
    rename_i ih
    obtain ⟨tail, decoded, rfl⟩ := Option.map_eq_some_iff.mp h
    obtain ⟨hm, rfl⟩ := upperHexDigit_of_value highValue
    obtain ⟨hn, rfl⟩ := upperHexDigit_of_value lowValue
    have value : b.toNat = 16 * m + n := by
      rw [UInt8.toNat_ofNat']
      omega
    rw [encodeBytes_cons, ih decoded, encodeByte, if_neg escaped, value,
      show (16 * m + n) / 16 = m by omega, show (16 * m + n) % 16 = n by omega]
    rfl
  | case4 => cases h
  | case5 c rest _ plain ih =>
    obtain ⟨tail, decoded, rfl⟩ := Option.map_eq_some_iff.mp h
    rw [encodeBytes_cons, encodeByte_ofNat plain, ih decoded, List.singleton_append]
  | case6 => cases h

theorem isAlphanum_upperHexDigit : ∀ n < 16, (upperHexDigit n).isAlphanum := by decide

theorem mem_encodeByte {b : UInt8} {c : Char} (h : c ∈ encodeByte b) : c.isAlphanum ∨ c = '_' := by
  have small := b.toNat_lt
  unfold encodeByte at h
  split at h
  · next plain =>
    rw [List.mem_singleton.mp h, isAlphanum_ofNat b.toNat small, UInt8.ofNat_toNat]
    exact .inl plain
  · simp only [List.mem_cons, List.not_mem_nil, or_false] at h
    rcases h with rfl | rfl | rfl
    · exact .inr rfl
    · exact .inl (isAlphanum_upperHexDigit _ (by omega))
    · exact .inl (isAlphanum_upperHexDigit _ (by omega))

/-! ### The walk over bytes -/

theorem encodeChar_ascii {c : Char} (h : c.toNat < 128) : String.utf8EncodeChar c = [UInt8.ofNat c.toNat] := by
  have small : c.val.toNat ≤ 0x7f := Nat.le_of_lt_succ h
  unfold String.utf8EncodeChar
  dsimp only
  rw [if_pos small]
  rfl

theorem encodeChar_other {c : Char} (h : 128 ≤ c.toNat) :
    ∃ b bytes, String.utf8EncodeChar c = b :: bytes ∧ 128 ≤ b.toNat := by
  have large : ¬ c.val.toNat ≤ 0x7f := Nat.not_le.mpr h
  unfold String.utf8EncodeChar
  dsimp only
  rw [if_neg large]
  split_ifs
  all_goals
    refine ⟨_, _, rfl, ?_⟩
    rw [UInt8.toNat_ofNat']
    omega

/-- A byte of ASCII at the start is a character of its own. -/
theorem exists_of_ascii {cs : List Char} {b : UInt8} {bytes : List UInt8}
    (h : cs.flatMap String.utf8EncodeChar = b :: bytes) (ascii : b.toNat < 128) :
    ∃ rest, cs = Char.ofNat b.toNat :: rest ∧ bytes = rest.flatMap String.utf8EncodeChar := by
  cases cs with
  | nil => cases h
  | cons c rest =>
    rw [List.flatMap_cons] at h
    by_cases small : c.toNat < 128
    · rw [encodeChar_ascii small, List.singleton_append] at h
      obtain ⟨rfl, rfl⟩ := List.cons.inj h
      have value : (UInt8.ofNat c.toNat).toNat = c.toNat := by
        rw [UInt8.toNat_ofNat']
        omega
      exact ⟨rest, by rw [value, Char.ofNat_toNat], rfl⟩
    · obtain ⟨first, more, eq, large⟩ := encodeChar_other (Nat.not_lt.mp small)
      rw [eq, List.cons_append] at h
      obtain ⟨rfl, -⟩ := List.cons.inj h
      omega

/-- Bytes can be cut where characters begin. -/
theorem isBoundary_flatMap (before : List UInt8) (cs : List Char) :
    isBoundary (before ++ cs.flatMap String.utf8EncodeChar) before.length = true := by
  rw [isBoundary, List.getElem?_append_right le_rfl, Nat.sub_self]
  cases cs with
  | nil => simp
  | cons c rest =>
    have some : 0 < (String.utf8EncodeChar c).length := by
      rw [String.length_utf8EncodeChar]
      exact c.utf8Size_pos
    rw [List.flatMap_cons, List.getElem?_append_left some, List.getElem?_eq_getElem some]
    exact decide_eq_true (UInt8.isUTF8FirstByte_getElem_utf8EncodeChar.mpr rfl)

theorem escaped?_eq_some_iff (before : List UInt8) (cs : List Char) (b : UInt8) :
    escaped? (before ++ cs.flatMap String.utf8EncodeChar) before.length = some b ↔
      ∃ high low rest h l, cs = high :: low :: rest ∧ upperHexValue? high = some h ∧ upperHexValue? low = some l ∧
        b = UInt8.ofNat (16 * h + l) := by
  constructor
  · intro found
    rw [escaped?] at found
    split at found
    · next high low cut =>
      split at found
      · next h l highValue lowValue =>
        rw [window?] at cut
        split at cut
        · -- Digits are bytes of ASCII, so the two bytes are two characters.
          rw [List.drop_left, Nat.add_sub_cancel_left] at cut
          have whole := (List.take_append_drop 2 (cs.flatMap String.utf8EncodeChar)).symm
          rw [Option.some.inj cut, List.cons_append, List.cons_append, List.nil_append] at whole
          obtain ⟨more, rfl, left⟩ := exists_of_ascii whole (lt_of_value highValue)
          obtain ⟨rest, rfl, -⟩ := exists_of_ascii left.symm (lt_of_value lowValue)
          exact ⟨_, _, rest, h, l, rfl, highValue, lowValue, (Option.some.inj found).symm⟩
        · cases cut
      · cases found
    · cases found
  · rintro ⟨high, low, rest, h, l, rfl, highValue, lowValue, rfl⟩
    obtain ⟨highSmall, highByte⟩ := hexValue?_of_value highValue
    obtain ⟨lowSmall, lowByte⟩ := hexValue?_of_value lowValue
    have start := isBoundary_flatMap before (high :: low :: rest)
    have stop := isBoundary_flatMap (before ++ [UInt8.ofNat high.toNat, UInt8.ofNat low.toNat]) rest
    rw [List.flatMap_cons, List.flatMap_cons, encodeChar_ascii highSmall, encodeChar_ascii lowSmall] at start ⊢
    rw [List.append_assoc, List.length_append] at stop
    have cut : window? (before ++ ([UInt8.ofNat high.toNat] ++ ([UInt8.ofNat low.toNat] ++
        rest.flatMap String.utf8EncodeChar))) before.length (before.length + 2) =
        some [UInt8.ofNat high.toNat, UInt8.ofNat low.toNat] := by
      rw [window?, start, if_pos, List.drop_left, Nat.add_sub_cancel_left]
      · rfl
      · exact stop
    rw [escaped?, cut]
    dsimp only
    rw [highByte, lowByte]

theorem escaped?_eq_none {before : List UInt8} {cs : List Char}
    (none : ∀ high low rest h l, cs = high :: low :: rest → upperHexValue? high = some h →
      upperHexValue? low ≠ some l) :
    escaped? (before ++ cs.flatMap String.utf8EncodeChar) before.length = Option.none := by
  refine Option.eq_none_iff_forall_ne_some.mpr fun b found => ?_
  obtain ⟨high, low, rest, h, l, eq, highValue, lowValue, -⟩ := (escaped?_eq_some_iff before cs b).mp found
  exact none high low rest h l eq highValue lowValue

/-- A character of ASCII is read as its byte. -/
theorem decodeFrom?_ascii {c : Char} (small : c.toNat < 128) (before : List UInt8) (cs : List Char) :
    let byte := UInt8.ofNat c.toNat
    let bytes := before ++ [byte] ++ cs.flatMap String.utf8EncodeChar
    decodeFrom? (before ++ (c :: cs).flatMap String.utf8EncodeChar) before.length =
      if byte = '_'.toUInt8 then
        (escaped? bytes (before.length + 1)).bind fun b =>
          if isAlphanumByte b then none else (decodeFrom? bytes (before.length + 3)).map (b :: ·)
      else if isAlphanumByte byte then (decodeFrom? bytes (before.length + 1)).map (byte :: ·)
      else none := by
  intro byte bytes
  have whole : before ++ (c :: cs).flatMap String.utf8EncodeChar = bytes := by
    rw [List.flatMap_cons, encodeChar_ascii small, ← List.append_assoc]
  have inside : before.length < bytes.length := by
    simp only [bytes, List.length_append, List.length_singleton]
    omega
  have here : bytes[before.length] = byte := by simp [bytes]
  rw [whole, decodeFrom?, dif_pos inside]
  simp only [here]

/-- The bytes of any other character stand for nothing. -/
theorem decodeFrom?_other {c : Char} (large : 128 ≤ c.toNat) (before : List UInt8) (cs : List Char) :
    decodeFrom? (before ++ (c :: cs).flatMap String.utf8EncodeChar) before.length = none := by
  obtain ⟨b, bytes, eq, large⟩ := encodeChar_other large
  have inside : before.length < (before ++ (c :: cs).flatMap String.utf8EncodeChar).length := by
    simp [eq]
  have here : (before ++ (c :: cs).flatMap String.utf8EncodeChar)[before.length] = b := by
    simp [eq]
  have noEscape : b ≠ '_'.toUInt8 := by
    rintro rfl
    exact absurd large (by decide)
  have foreign : ¬isAlphanumByte b := by
    rw [isAlphanumByte_iff]
    omega
  rw [decodeFrom?, dif_pos inside]
  simp only [here, if_neg noEscape, if_neg foreign]

theorem decodeFrom?_escape (before : List UInt8) (cs : List Char) :
    let read := before ++ ['_'.toUInt8]
    decodeFrom? (before ++ ('_' :: cs).flatMap String.utf8EncodeChar) before.length =
      (escaped? (read ++ cs.flatMap String.utf8EncodeChar) read.length).bind fun b =>
        if isAlphanumByte b then none
        else (decodeFrom? (read ++ cs.flatMap String.utf8EncodeChar) (before.length + 3)).map (b :: ·) := by
  intro read
  have length : read.length = before.length + 1 := List.length_append
  rw [decodeFrom?_ascii (by decide), if_pos (by decide), length]
  rfl

theorem decodeFrom?_plain {c : Char} (other : c ≠ '_') (before : List UInt8) (cs : List Char) :
    let read := before ++ [UInt8.ofNat c.toNat]
    decodeFrom? (before ++ (c :: cs).flatMap String.utf8EncodeChar) before.length =
      if c.isAlphanum then
        (decodeFrom? (read ++ cs.flatMap String.utf8EncodeChar) read.length).map (UInt8.ofNat c.toNat :: ·)
      else none := by
  intro read
  by_cases small : c.toNat < 128
  · have length : read.length = before.length + 1 := List.length_append
    have noEscape : UInt8.ofNat c.toNat ≠ '_'.toUInt8 := by
      intro eq
      have same : c.toNat = '_'.toNat := by
        have values := congrArg UInt8.toNat eq
        rw [UInt8.toNat_ofNat', Nat.mod_eq_of_lt (by omega)] at values
        exact values
      exact other (Char.toNat_inj.mp same)
    have plain : isAlphanumByte (UInt8.ofNat c.toNat) = c.isAlphanum := by
      rw [← isAlphanum_ofNat c.toNat (by omega), Char.ofNat_toNat]
    rw [decodeFrom?_ascii small, if_neg noEscape, plain, length]
  · have foreign : ¬c.isAlphanum := fun plain => small (toNat_lt_of_isAlphanum plain)
    rw [decodeFrom?_other (Nat.not_lt.mp small), if_neg foreign]

/-- The walk over bytes does what the walk over characters does. -/
theorem decodeFrom?_flatMap (before : List UInt8) (cs : List Char) :
    decodeFrom? (before ++ cs.flatMap String.utf8EncodeChar) before.length = decodeChars? cs := by
  fun_induction decodeChars? cs generalizing before with
  | case1 =>
    rw [List.flatMap_nil, List.append_nil, decodeFrom?, dif_neg (Nat.lt_irrefl _)]
  | case2 high low rest h l lowValue highValue b plain =>
    have read := (escaped?_eq_some_iff (before ++ ['_'.toUInt8]) (high :: low :: rest) _).mpr
      ⟨high, low, rest, h, l, rfl, highValue, lowValue, rfl⟩
    rw [decodeFrom?_escape, read, Option.bind_some, if_pos plain]
  | case3 high low rest h l lowValue highValue b escaped ih =>
    have read := (escaped?_eq_some_iff (before ++ ['_'.toUInt8]) (high :: low :: rest) _).mpr
      ⟨high, low, rest, h, l, rfl, highValue, lowValue, rfl⟩
    have whole : before ++ ['_'.toUInt8] ++ (high :: low :: rest).flatMap String.utf8EncodeChar =
        before ++ ['_'.toUInt8, UInt8.ofNat high.toNat, UInt8.ofNat low.toNat] ++
          rest.flatMap String.utf8EncodeChar := by
      rw [List.flatMap_cons, List.flatMap_cons, encodeChar_ascii (hexValue?_of_value highValue).1,
        encodeChar_ascii (hexValue?_of_value lowValue).1]
      simp
    have length : (before ++ ['_'.toUInt8, UInt8.ofNat high.toNat, UInt8.ofNat low.toNat]).length =
        before.length + 3 := List.length_append
    rw [decodeFrom?_escape, read, Option.bind_some, if_neg escaped, whole, ← length, ih]
  | case4 high low rest none =>
    rw [decodeFrom?_escape, escaped?_eq_none, Option.bind_none]
    rintro _ _ _ h l eq highValue lowValue
    cases eq
    exact none h l highValue lowValue
  | case5 c rest _ plain ih =>
    have other : c ≠ '_' := by
      rintro rfl
      cases plain
    rw [decodeFrom?_plain other, if_pos plain, ih]
  | case6 c rest few foreign =>
    by_cases other : c = '_'
    · subst other
      rw [decodeFrom?_escape, escaped?_eq_none, Option.bind_none]
      exact fun high low more _ _ eq _ _ => few high low more rfl eq
    · rw [decodeFrom?_plain other, if_neg foreign]

/-! ### Texts -/

theorem decode?_eq (segment : String) : decode? segment = (decodeChars? segment.toList).bind ofUtf8? := by
  rw [decode?, utf8_eq]
  exact congrArg (Option.bind · ofUtf8?) (decodeFrom?_flatMap [] segment.toList)

theorem decode?_encode (text : String) : decode? (encode text) = some text := by
  rw [decode?_eq, encode, String.toList_ofList, decodeChars?_encodeBytes, Option.bind_some, ofUtf8?_utf8]

theorem encode_of_decode? {segment text : String} (h : decode? segment = some text) :
    encode text = segment := by
  rw [decode?_eq] at h
  obtain ⟨bytes, decoded, valid⟩ := Option.bind_eq_some_iff.mp h
  rw [encode, utf8_of_ofUtf8? valid, encodeBytes_of_decodeChars? decoded, String.ofList_toList]

theorem encode_injective : Function.Injective encode := by
  intro s t eq
  have decoded := decode?_encode s
  rw [eq, decode?_encode] at decoded
  exact (Option.some.inj decoded).symm

theorem mem_encode {text : String} {c : Char} (h : c ∈ (encode text).toList) : c.isAlphanum ∨ c = '_' := by
  rw [encode, String.toList_ofList] at h
  obtain ⟨b, -, hc⟩ := List.mem_flatMap.mp h
  exact mem_encodeByte hc

theorem isName_encode {url : String} (h : url ≠ "") : IsName (encode url) := by
  have plain {c : Char} (other : c.isAlphanum = false) (ne : c ≠ '_') : c ∉ (encode url).toList := by
    intro mem
    rcases mem_encode mem with letter | score
    · rw [other] at letter
      cases letter
    · exact ne score
  have dot : '.' ∉ (encode url).toList := plain (by decide) (by decide)
  refine ⟨?_, ?_, ?_, plain (by decide) (by decide), plain (by decide) (by decide)⟩
  · intro empty
    exact h (encode_injective (empty.trans (by decide)))
  · intro eq
    rw [eq] at dot
    exact dot (by decide)
  · intro eq
    rw [eq] at dot
    exact dot (by decide)

/-- Decoding undoes encoding and gives a text for nothing else. -/
theorem segments_name_texts :
    (∀ url, decode? (encode url) = some url) ∧
      (∀ segment url, decode? segment = some url → encode url = segment) ∧
      (∀ segment, decode? segment = none ↔ ∀ url, encode url ≠ segment) ∧
      Function.Injective encode ∧
      ∀ url, ∀ c ∈ (encode url).toList, c.isAlphanum ∨ c = '_' := by
  refine ⟨decode?_encode, fun _ _ => encode_of_decode?, ?_, encode_injective, fun _ _ => mem_encode⟩
  intro segment
  constructor
  · rintro refused url rfl
    rw [decode?_encode] at refused
    cases refused
  · intro foreign
    cases decoded : decode? segment with
    | none => rfl
    | some url => exact absurd (encode_of_decode? decoded) (foreign url)

example : decode? "lower_2f" = none := by decide +kernel

/-- The two bytes after the underscore end inside of a character. -/
example : decode? "_2é" = none := by decide +kernel

end Provisioning.Cache.Segment
