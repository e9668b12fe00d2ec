import Mathlib.Tactic.SplitIfs
import Provisioning.Json.Reader
import Provisioning.Json.Writer
import Provisioning.Proofs.Decimal.Digits

/-! Reading what is written. In a layout whose breaks are blanks, every value without floats and with no
negative number is read back from its text, whatever comes after the text, as long as it does not go on with
a number. -/

namespace Provisioning.Json

/-! ### Strings -/

theorem hex4?_lowerHexDigit : ∀ n < 32,
    hex4? '0' '0' (Text.lowerHexDigit (n / 16)) (Text.lowerHexDigit (n % 16)) = some n := by
  decide

theorem readString_short {letter c : Char} (h : shortEscape? letter = some c) (other : letter ≠ 'u')
    (rest : List Char) :
    readString .strict ('\\' :: letter :: rest) = (readString .strict rest).map fun (s, r) => (c :: s, r) := by
  rw [readString]
  · rw [h]
  · intro a b c d rest' eq
    exact fun _ => other eq

theorem readString_control {n : Nat} (h : n < 32) (rest : List Char) :
    readString .strict ('\\' :: 'u' :: '0' :: '0' :: Text.lowerHexDigit (n / 16) ::
      Text.lowerHexDigit (n % 16) :: rest) =
        (readString .strict rest).map fun (s, r) => (Char.ofNat n :: s, r) := by
  have high : isHighSurrogate n = false := by simp [isHighSurrogate]; omega
  have low : isLowSurrogate n = false := by simp [isLowSurrogate]; omega
  rw [readString, hex4?_lowerHexDigit n h]
  simp [high, low]

theorem readString_plain {c : Char} (quote : c ≠ '\x22') (backslash : c ≠ '\\') (h : ¬c.toNat < 0x20)
    (rest : List Char) :
    readString .strict (c :: rest) = (readString .strict rest).map fun (s, r) => (c :: s, r) := by
  rw [readString]
  · simp [backslash, h]
  all_goals simp_all

theorem readString_escapeChar (c : Char) (rest : List Char) :
    readString .strict (escapeChar c ++ rest) =
      (readString .strict rest).map fun (s, r) => (c :: s, r) := by
  unfold escapeChar
  split_ifs with quote backslash backspace feed line back tab control
  · subst quote; exact readString_short (by decide) (by decide) rest
  · subst backslash; exact readString_short (by decide) (by decide) rest
  · subst backspace; exact readString_short (by decide) (by decide) rest
  · subst feed; exact readString_short (by decide) (by decide) rest
  · subst line; exact readString_short (by decide) (by decide) rest
  · subst back; exact readString_short (by decide) (by decide) rest
  · subst tab; exact readString_short (by decide) (by decide) rest
  · have read := readString_control control rest
    rw [Char.ofNat_toNat] at read
    exact read
  · exact readString_plain quote backslash control rest

/-- A string is read back up to its closing quote. -/
theorem readString_flatMap (cs rest : List Char) :
    readString .strict (cs.flatMap escapeChar ++ '\x22' :: rest) = some (cs, rest) := by
  induction cs with
  | nil => rw [List.flatMap_nil, List.nil_append, readString]
  | cons c cs ih =>
    rw [List.flatMap_cons, List.append_assoc, readString_escapeChar, ih]
    rfl

theorem quote_append (s : String) (rest : List Char) :
    quote s ++ rest = '\x22' :: (s.toList.flatMap escapeChar ++ '\x22' :: rest) := by
  simp [quote]

/-! ### Numbers -/

/-- A text that goes on with a number when it follows one. -/
def goesOn (cs : List Char) : Bool :=
  cs.head?.any fun c => c.isDigit || c == '.' || c == 'e' || c == 'E'

theorem startsWithDigit_of_goesOn {rest : List Char} (h : goesOn rest = false) :
    Decimal.startsWithDigit rest = false := by
  cases rest with
  | nil => rfl
  | cons c cs =>
    simp only [goesOn, List.head?_cons, Option.any_some, Bool.or_eq_false_iff] at h
    exact h.1.1.1

theorem readFraction_of_goesOn {rest : List Char} (h : goesOn rest = false) :
    readFraction rest = some ([], rest) := by
  cases rest with
  | nil => rfl
  | cons c cs =>
    have point : c ≠ '.' := by
      rintro rfl
      simp [goesOn] at h
    simp [readFraction, point]

theorem readExponent_of_goesOn {rest : List Char} (h : goesOn rest = false) :
    readExponent rest = some (none, rest) := by
  cases rest with
  | nil => rfl
  | cons c cs =>
    have mark : ¬(c = 'e' ∨ c = 'E') := by
      rintro (rfl | rfl) <;> simp [goesOn] at h
    simp [readExponent, mark]

theorem readNumber_digitText {n : Nat} (bound : n < Nat.pow 2 64) {rest : List Char} (h : goesOn rest = false) :
    readNumber .strict false ((Decimal.digitText n).toList ++ rest) = some (.integer n, rest) := by
  have digit := startsWithDigit_of_goesOn h
  have value : numberValue .strict false (Decimal.digitText n).toList [] none = some (.integer n) := by
    have small : Decimal.ofDigits (Decimal.digitText n).toList < Nat.pow 2 64 := by
      rw [Decimal.ofDigits_digitText]
      exact bound
    unfold numberValue
    rw [if_pos ⟨rfl, rfl, rfl, small⟩, Decimal.ofDigits_digitText]
  rw [readNumber, Decimal.takeWhile_digitText_append digit, Decimal.dropWhile_digitText_append digit]
  split
  · next none => exact absurd none (Decimal.digitText_ne_nil n)
  · next zero => exact absurd zero (Decimal.digitText_ne_zero_cons n _ _)
  · rw [readFraction_of_goesOn h]
    dsimp only
    rw [readExponent_of_goesOn h]
    dsimp only
    rw [value]
    rfl

/-! ### Layouts -/

/-- Nothing but blanks stands between the parts of a text, and a colon after each key. -/
structure Layout.Spaced (l : Layout) : Prop where
  lineBreak : ∀ depth, ∀ c ∈ l.lineBreak depth, isSpace c = true
  colon : ∃ blanks, l.colon = ':' :: blanks ∧ ∀ c ∈ blanks, isSpace c = true

theorem Layout.compact_spaced : Layout.compact.Spaced := ⟨by simp [Layout.compact], [], rfl, by simp⟩

theorem Layout.pretty_spaced : Layout.pretty.Spaced := by
  refine ⟨fun depth c hc => ?_, [' '], rfl, List.forall_mem_singleton.mpr rfl⟩
  rcases List.mem_cons.mp hc with rfl | blank
  · rfl
  · rw [List.eq_of_mem_replicate blank]
    rfl

theorem skipSpace_append {blanks : List Char} (h : ∀ c ∈ blanks, isSpace c = true) (cs : List Char) :
    skipSpace (blanks ++ cs) = skipSpace cs :=
  List.dropWhile_append_of_pos h

theorem skipSpace_cons {c : Char} (h : isSpace c = false) (cs : List Char) :
    skipSpace (c :: cs) = c :: cs :=
  List.dropWhile_cons_of_neg (by simp [h])

theorem isSpace_of_isDigit {c : Char} (h : c.isDigit = true) : isSpace c = false := by
  refine Bool.eq_false_iff.mpr fun blank => ?_
  simp only [isSpace, Bool.or_eq_true, beq_iff_eq] at blank
  rcases blank with ((rfl | rfl) | rfl) | rfl <;> simp at h

theorem goesOn_append {blanks : List Char} (h : ∀ c ∈ blanks, isSpace c = true) {cs : List Char}
    (rest : goesOn cs = false) : goesOn (blanks ++ cs) = false := by
  cases blanks with
  | nil => exact rest
  | cons c blanks =>
    have blank : isSpace c = true := h c List.mem_cons_self
    simp only [isSpace, Bool.or_eq_true, beq_iff_eq] at blank
    rcases blank with ((rfl | rfl) | rfl) | rfl <;> rfl

/-! ### Values -/

theorem write_array_nil (l : Layout) (level : Nat) : (Json.array []).write l level = ['[', ']'] := rfl

theorem write_array_cons (l : Layout) (level : Nat) (item : Json) (items : List Json) :
    (Json.array (item :: items)).write l level =
      '[' :: (l.lineBreak (level + 1) ++ item.write l (level + 1) ++ writeItems l level items ++
        l.lineBreak level ++ [']']) := rfl

theorem write_object_nil (l : Layout) (level : Nat) : (Json.object []).write l level = ['\x7b', '\x7d'] := rfl

theorem write_object_cons (l : Layout) (level : Nat) (key : String) (v : Json) (fields : List (String × Json)) :
    (Json.object ((key, v) :: fields)).write l level =
      '\x7b' :: (l.lineBreak (level + 1) ++ quote key ++ l.colon ++ v.write l (level + 1) ++
        writeFields l level fields ++ l.lineBreak level ++ ['\x7d']) := rfl

/-- A value without floats and negative numbers that opens `depth` brackets at once at most. -/
inductive Plain : Nat → Json → Prop
  | null (depth : Nat) : Plain depth .null
  | boolean (depth : Nat) (b : Bool) : Plain depth (.boolean b)
  | natural (depth : Nat) {n : Nat} (bound : n < Nat.pow 2 64) : Plain depth (.natural n)
  | string (depth : Nat) (s : String) : Plain depth (.string s)
  | array {depth : Nat} {items : List Json} (h : ∀ v ∈ items, Plain depth v) :
    Plain (depth + 1) (.array items)
  | object {depth : Nat} {fields : List (String × Json)} (h : ∀ f ∈ fields, Plain depth f.2) :
    Plain (depth + 1) (.object fields)

/-- The text of a value begins with something else than a blank or a closing bracket. -/
theorem Plain.write_cons {depth : Nat} {v : Json} (h : Plain depth v) (l : Layout) (level : Nat) :
    ∃ c cs, v.write l level = c :: cs ∧ isSpace c = false ∧ c ≠ ']' := by
  cases h with
  | null => exact ⟨'n', _, rfl, rfl, by decide⟩
  | boolean _ b =>
    cases b
    · exact ⟨'f', _, rfl, rfl, by decide⟩
    · exact ⟨'t', _, rfl, rfl, by decide⟩
  | @natural _ n bound =>
    obtain ⟨c, cs, eq⟩ := List.exists_cons_of_ne_nil (Decimal.digitText_ne_nil n)
    have digit : c.isDigit = true := Decimal.isDigit_of_mem_digitText (n := n) (by simp [eq])
    refine ⟨c, cs, eq, isSpace_of_isDigit digit, ?_⟩
    rintro rfl
    simp at digit
  | string _ s => exact ⟨'\x22', _, rfl, rfl, by decide⟩
  | @array _ items h =>
    cases items with
    | nil => exact ⟨'[', _, rfl, rfl, by decide⟩
    | cons item items => exact ⟨'[', _, write_array_cons l level item items, rfl, by decide⟩
  | @object _ fields h =>
    cases fields with
    | nil => exact ⟨'\x7b', _, rfl, rfl, by decide⟩
    | cons field fields => exact ⟨'\x7b', _, write_object_cons l level field.1 field.2 fields, rfl, by decide⟩

/-- A value is read back from its text, with blanks before it and a text behind it. -/
def Reads (l : Layout) (depth : Nat) (v : Json) : Prop :=
  ∀ level fuel blanks rest, (∀ c ∈ blanks, isSpace c = true) → goesOn rest = false →
    -- Two steps for each character: one for a value, one for its place among others.
    2 * (v.write l level).length ≤ fuel →
      readValue .strict depth fuel (blanks ++ (v.write l level ++ rest)) = some (v, rest)

/-! ### Items and fields -/

section

variable {care : Care} {depth fuel : Nat} {cs afterValue rest : List Char} {v : Json}

theorem readItems_last (value : readValue care depth fuel cs = some (v, afterValue))
    (last : skipSpace afterValue = ']' :: rest) :
    readItems care depth (fuel + 1) cs = some ([v], rest) := by
  rw [readItems]
  simp only [value, last]

theorem readItems_more (value : readValue care depth fuel cs = some (v, afterValue))
    (more : skipSpace afterValue = ',' :: rest) :
    readItems care depth (fuel + 1) cs =
      (readItems care depth fuel rest).map fun (items, r) => (v :: items, r) := by
  rw [readItems]
  simp only [value, more]

variable (careFor : String → Care) {key afterQuote afterKey afterColon : List Char}
  (quoted : skipSpace cs = '\x22' :: afterQuote) (name : readString care afterQuote = some (key, afterKey))
  (colon : skipSpace afterKey = ':' :: afterColon)
  (value : readValue (careFor (String.ofList key)) depth fuel afterColon = some (v, afterValue))

include quoted name colon value

theorem readFields_last (last : skipSpace afterValue = '\x7d' :: rest) :
    readFields care careFor depth (fuel + 1) cs = some ([(String.ofList key, v)], rest) := by
  rw [readFields]
  simp only [quoted, name, colon, value, last]

theorem readFields_more (more : skipSpace afterValue = ',' :: rest) :
    readFields care careFor depth (fuel + 1) cs =
      (readFields care careFor depth fuel rest).map fun (fields, r) => ((String.ofList key, v) :: fields, r) := by
  rw [readFields]
  simp only [quoted, name, colon, value, more]

end

theorem writeItems_cons_append (l : Layout) (level : Nat) (item : Json) (items : List Json) (cs : List Char) :
    writeItems l level (item :: items) ++ cs =
      ',' :: (l.lineBreak (level + 1) ++ (item.write l (level + 1) ++ (writeItems l level items ++ cs))) := by
  simp only [writeItems, List.cons_append, List.append_assoc]

theorem writeFields_cons_append (l : Layout) (level : Nat) (key : String) (v : Json)
    (fields : List (String × Json)) (cs : List Char) :
    writeFields l level ((key, v) :: fields) ++ cs =
      ',' :: (l.lineBreak (level + 1) ++ (quote key ++ (l.colon ++ (v.write l (level + 1) ++
        (writeFields l level fields ++ cs))))) := by
  simp only [writeFields, List.cons_append, List.append_assoc]

theorem writeArray_append (l : Layout) (level : Nat) (item : Json) (items : List Json) (cs : List Char) :
    (Json.array (item :: items)).write l level ++ cs =
      '[' :: (l.lineBreak (level + 1) ++ (item.write l (level + 1) ++ (writeItems l level items ++
        (l.lineBreak level ++ ']' :: cs)))) := by
  simp [write_array_cons]

theorem writeObject_append (l : Layout) (level : Nat) (key : String) (v : Json)
    (fields : List (String × Json)) (cs : List Char) :
    (Json.object ((key, v) :: fields)).write l level ++ cs =
      '\x7b' :: (l.lineBreak (level + 1) ++ (quote key ++ (l.colon ++ (v.write l (level + 1) ++
        (writeFields l level fields ++ (l.lineBreak level ++ '\x7d' :: cs)))))) := by
  simp [write_object_cons]

section

variable {l : Layout} (spaced : l.Spaced) {depth : Nat}

include spaced

/-- The items of an array are read back up to its closing bracket. -/
theorem readItems_write (item : Json) {items : List Json} (h : ∀ v ∈ item :: items, Reads l depth v)
    (level fuel : Nat) (blanks rest : List Char) (blank : ∀ c ∈ blanks, isSpace c = true)
    (enough : 2 * (item.write l (level + 1) ++ writeItems l level items).length + 1 ≤ fuel) :
    readItems .strict depth fuel (blanks ++ (item.write l (level + 1) ++ (writeItems l level items ++
      (l.lineBreak level ++ ']' :: rest)))) = some (item :: items, rest) := by
  have closing : skipSpace (l.lineBreak level ++ ']' :: rest) = ']' :: rest := by
    rw [skipSpace_append (spaced.lineBreak level), skipSpace_cons rfl]
  induction items generalizing item fuel blanks with
  | nil =>
    obtain _ | fuel := fuel
    · omega
    simp only [writeItems, List.append_nil] at enough
    have value := h item List.mem_cons_self (level + 1) fuel blanks (l.lineBreak level ++ ']' :: rest) blank
      (goesOn_append (spaced.lineBreak level) rfl) (by omega)
    exact readItems_last value closing
  | cons next items ih =>
    obtain _ | fuel := fuel
    · omega
    simp only [writeItems, List.length_append, List.length_cons] at enough
    have value := h item List.mem_cons_self (level + 1) fuel blanks
      (writeItems l level (next :: items) ++ (l.lineBreak level ++ ']' :: rest)) blank rfl (by omega)
    have later := ih next (fun v hv => h v (List.mem_cons_of_mem _ hv)) fuel (l.lineBreak (level + 1))
      (spaced.lineBreak (level + 1)) (by simp only [List.length_append]; omega)
    rw [readItems_more value (by rw [writeItems_cons_append, skipSpace_cons rfl]), later]
    rfl

/-- The fields of an object are read back up to its closing bracket. -/
theorem readFields_write (careFor : String → Care) (key : String) (v : Json) {fields : List (String × Json)}
    (h : ∀ f ∈ (key, v) :: fields, careFor f.1 = .strict ∧ Reads l depth f.2)
    (level fuel : Nat) (blanks rest : List Char) (blank : ∀ c ∈ blanks, isSpace c = true)
    (enough : 2 * (quote key ++ l.colon ++ v.write l (level + 1) ++ writeFields l level fields).length + 1
      ≤ fuel) :
    readFields .strict careFor depth fuel (blanks ++ (quote key ++ (l.colon ++ (v.write l (level + 1) ++
      (writeFields l level fields ++ (l.lineBreak level ++ '\x7d' :: rest)))))) =
        some ((key, v) :: fields, rest) := by
  obtain ⟨gap, colon, gapBlank⟩ := spaced.colon
  have closing : skipSpace (l.lineBreak level ++ '\x7d' :: rest) = '\x7d' :: rest := by
    rw [skipSpace_append (spaced.lineBreak level), skipSpace_cons rfl]
  have quoted (key : String) {blanks : List Char} (blank : ∀ c ∈ blanks, isSpace c = true) (cs : List Char) :
      skipSpace (blanks ++ (quote key ++ cs)) =
        '\x22' :: (key.toList.flatMap escapeChar ++ '\x22' :: cs) := by
    rw [skipSpace_append blank, quote_append, skipSpace_cons rfl]
  have colonRead (cs : List Char) : skipSpace (l.colon ++ cs) = ':' :: (gap ++ cs) := by
    rw [colon, List.cons_append, skipSpace_cons rfl]
  induction fields generalizing key v fuel blanks with
  | nil =>
    obtain _ | fuel := fuel
    · omega
    obtain ⟨strict, reads⟩ : careFor key = .strict ∧ Reads l depth v := h (key, v) List.mem_cons_self
    simp only [writeFields, List.append_nil, List.length_append] at enough
    have value := reads (level + 1) fuel gap (l.lineBreak level ++ '\x7d' :: rest) gapBlank
      (goesOn_append (spaced.lineBreak level) rfl) (by omega)
    have last := readFields_last careFor (quoted key blank _) (readString_flatMap _ _)
      (colonRead _) (by rw [String.ofList_toList, strict]; exact value) closing
    rw [String.ofList_toList] at last
    exact last
  | cons next fields ih =>
    obtain _ | fuel := fuel
    · omega
    obtain ⟨nextKey, nextValue⟩ := next
    obtain ⟨strict, reads⟩ : careFor key = .strict ∧ Reads l depth v := h (key, v) List.mem_cons_self
    simp only [writeFields, List.length_append, List.length_cons] at enough
    have value := reads (level + 1) fuel gap
      (writeFields l level ((nextKey, nextValue) :: fields) ++ (l.lineBreak level ++ '\x7d' :: rest)) gapBlank rfl
      (by omega)
    have later := ih nextKey nextValue (fun f hf => h f (List.mem_cons_of_mem _ hf)) fuel
      (l.lineBreak (level + 1)) (spaced.lineBreak (level + 1)) (by simp only [List.length_append]; omega)
    have more := readFields_more careFor (quoted key blank _) (readString_flatMap _ _)
      (colonRead _) (by rw [String.ofList_toList, strict]; exact value)
      (by rw [writeFields_cons_append, skipSpace_cons rfl])
    rw [more, later, String.ofList_toList]
    rfl

/-- An array is read back if its items are. -/
theorem reads_array {items : List Json} (plain : ∀ v ∈ items, Plain depth v)
    (h : ∀ v ∈ items, Reads l depth v) : Reads l (depth + 1) (.array items) := by
  intro level fuel blanks rest blank follows enough
  cases items with
  | nil =>
    obtain _ | fuel := fuel
    · simp [write_array_nil] at enough
    rw [readValue, skipSpace_append blank, write_array_nil, List.cons_append, skipSpace_cons rfl]
    simp only [List.cons_append, List.nil_append, skipSpace_cons (show isSpace ']' = false from rfl)]
    rfl
  | cons item items =>
    obtain _ | fuel := fuel
    · simp [write_array_cons] at enough
    have text : 2 * (item.write l (level + 1) ++ writeItems l level items).length + 1 ≤ fuel := by
      simp only [write_array_cons, List.length_append, List.length_cons, List.length_nil] at enough ⊢
      omega
    have items := readItems_write spaced item h level fuel [] rest (by simp) text
    obtain ⟨c, cs, first, noBlank, noBracket⟩ := (plain item List.mem_cons_self).write_cons l (level + 1)
    rw [writeArray_append, readValue, skipSpace_append blank, skipSpace_cons rfl]
    rw [first, List.nil_append, List.cons_append] at items
    simp only [skipSpace_append (spaced.lineBreak (level + 1)), first, List.cons_append, skipSpace_cons noBlank,
      Nat.add_sub_cancel]
    simp [noBracket, items]

/-- An object is read back if the values of its fields are. -/
theorem reads_object {fields : List (String × Json)} (h : ∀ f ∈ fields, Reads l depth f.2) :
    Reads l (depth + 1) (.object fields) := by
  intro level fuel blanks rest blank follows enough
  cases fields with
  | nil =>
    obtain _ | fuel := fuel
    · simp [write_object_nil] at enough
    rw [readValue, skipSpace_append blank, write_object_nil, List.cons_append, skipSpace_cons rfl]
    simp only [List.cons_append, List.nil_append, skipSpace_cons (show isSpace '\x7d' = false from rfl)]
    rfl
  | cons field fields =>
    obtain ⟨key, v⟩ := field
    obtain _ | fuel := fuel
    · simp [write_object_cons] at enough
    have text : 2 * (quote key ++ l.colon ++ v.write l (level + 1) ++ writeFields l level fields).length + 1
        ≤ fuel := by
      simp only [write_object_cons, List.length_append, List.length_cons, List.length_nil] at enough ⊢
      omega
    have fields := readFields_write spaced (fun _ => .strict) key v (fun f hf => ⟨rfl, h f hf⟩) level fuel []
      rest (by simp) text
    rw [writeObject_append, readValue, skipSpace_append blank, skipSpace_cons rfl]
    rw [quote_append, List.nil_append] at fields
    simp only [skipSpace_append (spaced.lineBreak (level + 1)), quote_append,
      skipSpace_cons (show isSpace '\x22' = false from rfl), Nat.add_sub_cancel]
    simp [fields]

end

theorem reads_word (l : Layout) (depth : Nat) {v : Json} (h : v = .null ∨ ∃ b, v = .boolean b) :
    Reads l depth v := by
  intro level fuel blanks rest blank follows enough
  obtain _ | fuel := fuel
  · rcases h with rfl | ⟨_ | _, rfl⟩ <;> cases enough
  rw [readValue, skipSpace_append blank]
  rcases h with rfl | ⟨_ | _, rfl⟩ <;> rfl

theorem reads_string (l : Layout) (depth : Nat) (s : String) : Reads l depth (.string s) := by
  intro level fuel blanks rest blank follows enough
  have text : (Json.string s).write l level = quote s := rfl
  obtain _ | fuel := fuel
  · simp [text, quote] at enough
  rw [readValue, skipSpace_append blank, text, quote_append, skipSpace_cons rfl]
  simp only [readString_flatMap, Option.map_some, String.ofList_toList]

theorem reads_natural (l : Layout) (depth : Nat) {n : Nat} (bound : n < Nat.pow 2 64) :
    Reads l depth (.natural n) := by
  intro level fuel blanks rest blank follows enough
  have text : (Json.natural n).write l level = (Decimal.digitText n).toList := rfl
  have number : readNumber .strict false ((Decimal.digitText n).toList ++ rest) = some (.natural n, rest) :=
    readNumber_digitText bound follows
  obtain ⟨c, cs, eq⟩ := List.exists_cons_of_ne_nil (Decimal.digitText_ne_nil n)
  have digit : c.isDigit = true := Decimal.isDigit_of_mem_digitText (n := n) (by simp [eq])
  obtain _ | fuel := fuel
  · simp [text, eq] at enough
  rw [text, readValue, skipSpace_append blank]
  rw [eq, List.cons_append] at number ⊢
  rw [skipSpace_cons (isSpace_of_isDigit digit)]
  split <;> simp_all

/-- What is plain is read back. -/
theorem Plain.reads {l : Layout} (spaced : l.Spaced) {depth : Nat} {v : Json} (h : Plain depth v) :
    Reads l depth v := by
  induction h with
  | null depth => exact reads_word l depth (.inl rfl)
  | boolean depth b => exact reads_word l depth (.inr ⟨b, rfl⟩)
  | natural depth bound => exact reads_natural l depth bound
  | string depth s => exact reads_string l depth s
  | array plain ih => exact reads_array spaced plain ih
  | object plain ih => exact reads_object spaced ih

/-- A document is read back from the text of an object, with blanks behind it, if the values of its fields are
plain and none of them is passed over. -/
theorem readDocument?_write {l : Layout} (spaced : l.Spaced) (careFor : String → Care) (key : String) (v : Json)
    (fields : List (String × Json))
    (h : ∀ f ∈ (key, v) :: fields, careFor f.1 = .strict ∧ Plain (maxDepth - 1) f.2) {blanks : List Char}
    (blank : ∀ c ∈ blanks, isSpace c = true) :
    readDocument? careFor (String.ofList ((Json.object ((key, v) :: fields)).write l 0 ++ blanks)) =
      some (.object ((key, v) :: fields)) := by
  have reads : ∀ f ∈ (key, v) :: fields, careFor f.1 = .strict ∧ Reads l (maxDepth - 1) f.2 :=
    fun f hf => ⟨(h f hf).1, (h f hf).2.reads spaced⟩
  generalize text : (Json.object ((key, v) :: fields)).write l 0 ++ blanks = cs
  rw [writeObject_append] at text
  have enough : 2 * (quote key ++ l.colon ++ v.write l (0 + 1) ++ writeFields l 0 fields).length + 1
      ≤ 2 * cs.length + 2 := by
    rw [← text]
    simp only [List.length_append, List.length_cons]
    omega
  have fields := readFields_write spaced careFor key v reads 0 (2 * cs.length + 2) [] blanks (by simp) enough
  have closing : skipSpace blanks = [] := by
    rw [← List.append_nil blanks, skipSpace_append blank]
    rfl
  have opening : skipSpace cs = cs := text ▸ skipSpace_cons rfl _
  rw [quote_append, List.nil_append] at fields
  simp only [readDocument?, String.toList_ofList, opening]
  generalize 2 * cs.length + 2 = fuel at fields ⊢
  simp only [← text, skipSpace_append (spaced.lineBreak (0 + 1)), quote_append,
    skipSpace_cons (show isSpace '\x22' = false from rfl)]
  simp [fields, closing]

end Provisioning.Json
