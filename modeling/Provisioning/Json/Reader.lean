import Provisioning.Json.Value
import Provisioning.Decimal.Layout
import Provisioning.Text.Ascii

/-! Reading JSON text. Each reader takes a value off the front of the text and gives the rest. A value
that is only passed over is read leniently: its numbers may be out of range, its escapes may be halves of
a surrogate pair, and it may be nested to any depth. -/

namespace Provisioning.Json

/-- How closely a value is looked at. -/
inductive Care where
  | strict
  | lenient
deriving DecidableEq, Repr

def isSpace (c : Char) : Bool := c == ' ' || c == '\t' || c == '\n' || c == '\r'

def skipSpace (cs : List Char) : List Char := cs.dropWhile isSpace

/-- The value of four hexadecimal digits. -/
def hex4? (a b c d : Char) : Option Nat :=
  match Text.hexValue? a, Text.hexValue? b, Text.hexValue? c, Text.hexValue? d with
  | some a, some b, some c, some d => some (((a * 16 + b) * 16 + c) * 16 + d)
  | _, _, _, _ => none

def isHighSurrogate (n : Nat) : Bool := 0xD800 ≤ n && n ≤ 0xDBFF

def isLowSurrogate (n : Nat) : Bool := 0xDC00 ≤ n && n ≤ 0xDFFF

/-- The character of an escape of one letter. -/
def shortEscape? (c : Char) : Option Char :=
  if c = '\x22' ∨ c = '\\' ∨ c = '/' then some c
  else if c = 'b' then some '\x08'
  else if c = 'f' then some '\x0c'
  else if c = 'n' then some '\n'
  else if c = 'r' then some '\r'
  else if c = 't' then some '\t'
  else none

/-- The characters of a string after its opening quote, and the text after its closing one. -/
def readString (care : Care) : List Char → Option (List Char × List Char)
  | [] => none
  | '\x22' :: rest => some ([], rest)
  | '\\' :: 'u' :: a :: b :: c :: d :: rest =>
    match hex4? a b c d with
    | none => none
    | some n =>
      if care = .lenient then (readString care rest).map fun (s, r) => ('\ufffd' :: s, r)
      else if isHighSurrogate n then
        match rest with
        | '\\' :: 'u' :: a :: b :: c :: d :: rest =>
          match hex4? a b c d with
          | none => none
          | some m =>
            if isLowSurrogate m then
              let code := 0x10000 + (n - 0xD800) * 0x400 + (m - 0xDC00)
              (readString care rest).map fun (s, r) => (Char.ofNat code :: s, r)
            else none
        | _ => none
      else if isLowSurrogate n then none
      else (readString care rest).map fun (s, r) => (Char.ofNat n :: s, r)
  | '\\' :: c :: rest =>
    match shortEscape? c with
    | none => none
    | some c => (readString care rest).map fun (s, r) => (c :: s, r)
  | c :: rest =>
    if c.toNat < 0x20 ∨ c = '\\' then none
    else (readString care rest).map fun (s, r) => (c :: s, r)

/-! ### Numbers -/

/-- The largest power of ten that a number is multiplied with or divided by at once. -/
def maxPower : Nat := 308

/-- Scales a float by a power of ten, nothing if it is too large for a float. A float below `2 ^ 64` is
zero after it has been divided as often as `fuel` allows. -/
def scaled? : Nat → Float → Int → Option Float
  | 0, x, _ => some x
  | _ + 1, x, .ofNat n =>
    if x == 0.0 then some x
    else if maxPower < n then none
    else
      let y := x * Decimal.nearest 1 n
      if y.isInf then none else some y
  | fuel + 1, x, .negSucc n =>
    if n + 1 ≤ maxPower then some (x / Decimal.nearest 1 (n + 1))
    else scaled? fuel (x / Decimal.nearest 1 maxPower) (maxPower - (n + 1 : Int))

/-- A digit at the end of a number, nothing if it no longer has 64 bits. -/
def withDigit? (n : Nat) (c : Char) : Option Nat :=
  let n := 10 * n + (c.toNat - '0'.toNat)
  if n < Nat.pow 2 64 then some n else none

/-- The number that digits before a point write, and how many digits from the first one on that does not
fit. -/
def readWhole (n : Nat) : List Char → Nat × Nat
  | [] => (n, 0)
  | c :: rest =>
    match withDigit? n c with
    | some n => readWhole n rest
    | none => (n, rest.length + 1)

/-- The number with the digits after a point as far as they fit, and how many of them do. -/
def readDecimals (n : Nat) : List Char → Nat × Nat
  | [] => (n, 0)
  | c :: rest =>
    match withDigit? n c with
    | some n =>
      let (n, count) := readDecimals n rest
      (n, count + 1)
    | none => (n, 0)

/-- The float that digits and an exponent write, nothing if it is too large. Only as many digits count as
fit into 64 bits. -/
def float? (whole fraction : List Char) (exponent : Int) : Option Float :=
  let (n, left) := readWhole 0 whole
  let (n, count) := readDecimals n fraction
  scaled? 4 n.toUInt64.toFloat (exponent + left - count)

/-- The digits after a point, at least one. -/
def readFraction : List Char → Option (List Char × List Char)
  | '.' :: rest =>
    let digits := rest.takeWhile Char.isDigit
    if digits.isEmpty then none else some (digits, rest.dropWhile Char.isDigit)
  | rest => some ([], rest)

/-- The exponent, none if there is none. -/
def readExponent : List Char → Option (Option Int × List Char)
  | [] => some (none, [])
  | e :: rest =>
    if e = 'e' ∨ e = 'E' then
      let (negative, rest) :=
        match rest with
        | '-' :: rest => (true, rest)
        | '+' :: rest => (false, rest)
        | rest => (false, rest)
      let digits := rest.takeWhile Char.isDigit
      if digits.isEmpty then none
      else
        let n : Int := Decimal.ofDigits digits
        some (some (if negative then -n else n), rest.dropWhile Char.isDigit)
    else some (none, e :: rest)

/-- The value of a number. An integer that no 64-bit word holds is a float, and so is minus zero. -/
def numberValue (care : Care) (negative : Bool) (whole fraction : List Char)
    (exponent : Option Int) : Option Json :=
  let n := Decimal.ofDigits whole
  if fraction = [] ∧ exponent = none ∧ !negative ∧ n < Nat.pow 2 64 then some (.integer n)
  else if fraction = [] ∧ exponent = none ∧ negative ∧ 0 < n ∧ n ≤ Nat.pow 2 63 then
    some (.integer (-n))
  else
    match float? whole fraction (exponent.getD 0), care with
    | some x, _ => some (.real (if negative then -x else x))
    | none, .strict => none
    | none, .lenient => some .null

/-- A number without its sign. A zero is not followed by another digit. -/
def readNumber (care : Care) (negative : Bool) (cs : List Char) : Option (Json × List Char) :=
  let whole := cs.takeWhile Char.isDigit
  match whole with
  | [] => none
  | '0' :: _ :: _ => none
  | _ =>
    match readFraction (cs.dropWhile Char.isDigit) with
    | none => none
    | some (fraction, rest) =>
      match readExponent rest with
      | none => none
      | some (exponent, rest) =>
        (numberValue care negative whole fraction exponent).map fun v => (v, rest)

/-- The text after a word at its front. -/
def afterWord? : List Char → List Char → Option (List Char)
  | [], cs => some cs
  | w :: ws, c :: cs => if w = c then afterWord? ws cs else none
  | _ :: _, [] => none

mutual

/-- A value. `depth` is the number of brackets that may still be opened; `fuel` bounds the steps. -/
def readValue (care : Care) (depth : Nat) : Nat → List Char → Option (Json × List Char)
  | 0, _ => none
  | fuel + 1, cs =>
    match skipSpace cs with
    | '\x22' :: rest => (readString care rest).map fun (s, r) => (.string (String.ofList s), r)
    | '[' :: rest =>
      if care = .strict ∧ depth = 0 then none
      else
        match skipSpace rest with
        | ']' :: rest => some (.array [], rest)
        | rest =>
          (readItems care (depth - 1) fuel rest).map fun (items, r) => (.array items, r)
    | '\x7b' :: rest =>
      if care = .strict ∧ depth = 0 then none
      else
        match skipSpace rest with
        | '\x7d' :: rest => some (.object [], rest)
        | rest =>
          (readFields care (fun _ => care) (depth - 1) fuel rest).map fun (fields, r) =>
            (.object fields, r)
    | '-' :: rest => readNumber care true rest
    | 't' :: rest => (afterWord? "rue".toList rest).map fun r => (.boolean true, r)
    | 'f' :: rest => (afterWord? "alse".toList rest).map fun r => (.boolean false, r)
    | 'n' :: rest => (afterWord? "ull".toList rest).map fun r => (.null, r)
    | rest => readNumber care false rest

/-- The items of an array up to its closing bracket. -/
def readItems (care : Care) (depth : Nat) : Nat → List Char → Option (List Json × List Char)
  | 0, _ => none
  | fuel + 1, cs =>
    match readValue care depth fuel cs with
    | none => none
    | some (item, rest) =>
      match skipSpace rest with
      | ']' :: rest => some ([item], rest)
      | ',' :: rest =>
        (readItems care depth fuel rest).map fun (items, r) => (item :: items, r)
      | _ => none

/-- The fields of an object up to its closing bracket. The keys are read with `care`, the value of a key
with the care for it. -/
def readFields (care : Care) (careFor : String → Care) (depth : Nat) :
    Nat → List Char → Option (List (String × Json) × List Char)
  | 0, _ => none
  | fuel + 1, cs =>
    match skipSpace cs with
    | '\x22' :: rest =>
      match readString care rest with
      | none => none
      | some (key, rest) =>
        match skipSpace rest with
        | ':' :: rest =>
          match readValue (careFor (String.ofList key)) depth fuel rest with
          | none => none
          | some (value, rest) =>
            match skipSpace rest with
            | '\x7d' :: rest => some ([(String.ofList key, value)], rest)
            | ',' :: rest =>
              (readFields care careFor depth fuel rest).map fun (fields, r) =>
                ((String.ofList key, value) :: fields, r)
            | _ => none
        | _ => none
    | _ => none

end

/-- The number of brackets that may be open at once. -/
def maxDepth : Nat := 127

/-- A whole text as one value whose fields are read with the care that their keys ask for. Only blanks
follow it. -/
def readDocument? (careFor : String → Care) (text : String) : Option Json :=
  let cs := skipSpace text.toList
  let fuel := 2 * cs.length + 2
  let read : Option (Json × List Char) :=
    match cs with
    | '\x7b' :: rest =>
      match skipSpace rest with
      | '\x7d' :: rest => some (.object [], rest)
      | rest =>
        (readFields .strict careFor (maxDepth - 1) fuel rest).map fun (fields, r) =>
          (.object fields, r)
    | cs => readValue .strict maxDepth fuel cs
  match read with
  | some (v, rest) => if skipSpace rest = [] then some v else none
  | none => none

end Provisioning.Json
