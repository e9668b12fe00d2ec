import Provisioning.Config.Value

/-! Numbers of the configuration language: numerals, comparison and arithmetic. Integers have 64 bits and
wrap around. A string that is a numeral counts as a number in arithmetic, and a number as its text in a
concatenation. -/

namespace Provisioning.Config

/-! ### Numerals -/

namespace Numeral

/-- A blank of the language. -/
def isBlank (c : Char) : Bool := c = ' ' || ('\t' ≤ c && c ≤ '\r')

def trim (cs : List Char) : List Char :=
  ((cs.dropWhile isBlank).reverse.dropWhile isBlank).reverse

def isHex (c : Char) : Bool := (Text.hexValue? c).isSome

def ofHex (cs : List Char) : Nat := cs.foldl (fun n c => 16 * n + (Text.hexValue? c).getD 0) 0

/-- Digits with an optional sign. -/
def exponent? (cs : List Char) : Option Int :=
  let (negative, digits) :=
    match cs with
    | '-' :: rest => (true, rest)
    | '+' :: rest => (false, rest)
    | rest => (false, rest)
  if digits.isEmpty || !digits.all Char.isDigit then none
  else
    let n : Int := Decimal.ofDigits digits
    some (if negative then -n else n)

/-- The float nearest to `mantissa * 2 ^ exponent`. -/
def nearestBinary (mantissa : Nat) (exponent : Int) : Float :=
  let size : Int := (Nat.log2 mantissa : Int) + exponent
  if mantissa = 0 ∨ size < -1080 then 0.0
  else if 1024 < size then 1.0 / 0.0
  else
    match exponent with
    | .ofNat n => Decimal.nearest (mantissa * Nat.pow 2 n) 0
    | .negSucc n => Decimal.nearest (mantissa * Nat.pow 5 (n + 1)) (-(n + 1 : Nat))

/-- A hexadecimal numeral after its mark: an integer modulo `2 ^ 64`, or a float if it has a point or an
exponent. -/
def hexadecimal? (cs : List Char) : Option Value :=
  let whole := cs.takeWhile isHex
  match cs.dropWhile isHex with
  | [] => if whole.isEmpty then none else some (.integer (Int64.ofInt (ofHex whole)))
  | rest =>
    let (fraction, rest) :=
      match rest with
      | '.' :: rest => (rest.takeWhile isHex, rest.dropWhile isHex)
      | rest => ([], rest)
    if whole.isEmpty && fraction.isEmpty then none
    else
      let number (e : Int) : Value :=
        .number (nearestBinary (ofHex (whole ++ fraction)) (e - 4 * (fraction.length : Int)))
      match rest with
      | [] => some (number 0)
      | p :: rest => if p = 'p' ∨ p = 'P' then (exponent? rest).map number else none

/-- A decimal numeral; an integer that has no 64 bits is a float. -/
def decimal? (negative : Bool) (cs : List Char) : Option Value :=
  let n : Int := Decimal.ofDigits cs
  let n := if negative then -n else n
  if !cs.isEmpty && cs.all Char.isDigit && leastInteger ≤ n && n ≤ greatestInteger then
    some (.integer (Int64.ofInt n))
  else
    (Decimal.parts? cs).map fun (whole, fraction, e) =>
      let x := Decimal.ofParts whole fraction e
      .number (if negative then -x else x)

/-- A numeral without blanks and without a sign, `negative` being the sign before it. -/
def unsigned? (negative : Bool) (cs : List Char) : Option Value :=
  let hex (rest : List Char) : Option Value :=
    (hexadecimal? rest).map fun v =>
      match v with
      | .integer n => .integer (if negative then -n else n)
      | .number x => .number (if negative then -x else x)
      | v => v
  match cs with
  | '0' :: 'x' :: rest => hex rest
  | '0' :: 'X' :: rest => hex rest
  | cs => decimal? negative cs

/-- A numeral with blanks around it and an optional sign. -/
def parse? (cs : List Char) : Option Value :=
  match trim cs with
  | '-' :: rest => unsigned? true rest
  | '+' :: rest => unsigned? false rest
  | rest => unsigned? false rest

end Numeral

/-! ### Conversions -/

namespace Value

/-- A number, or the number of a string that is a numeral. -/
def number? : Value → Option Value
  | .integer n => some (.integer n)
  | .number x => some (.number x)
  | .string s => Numeral.parse? (s.map fun b => Char.ofNat b.toNat)
  | _ => none

/-- The float of a number, or of a string that is a numeral. -/
def float? (v : Value) : Option Float :=
  match v.number? with
  | some (.integer n) => some (Float.ofInt n.toInt)
  | some (.number x) => some x
  | _ => none

/-- A string, or the text of a number. -/
def string? : Value → Option Bytes
  | .string s => some s
  | .integer n => some (Text.utf8 (Decimal.integerText n.toInt))
  | .number x => some (Text.utf8 (Decimal.fourteen x))
  | _ => none

end Value

/-! ### Comparison -/

/-- Compares an integer with a float, exactly; nothing compares with what is no number. -/
def compareWhole (n : Int) (x : Float) : Option Ordering :=
  match Decimal.Binary.ofFloat x with
  | .nan _ => none
  | .infinity negative => some (if negative then .gt else .lt)
  | .finite b =>
    let (p, q) := Decimal.scale 2 b.exponent
    let size : Int := (b.mantissa * p : Nat)
    some (compare (n * (q : Int)) (if b.negative then -size else size))

/-- Orders two numbers or two strings, strings by their bytes. -/
def Value.compare? : Value → Value → Option (Option Ordering)
  | .integer a, .integer b => some (some (compare a.toInt b.toInt))
  | .integer a, .number x => some (compareWhole a.toInt x)
  | .number x, .integer a => some ((compareWhole a.toInt x).map Ordering.swap)
  | .number x, .number y =>
    some (if x < y then some .lt else if y < x then some .gt else if x == y then some .eq else none)
  | .string s, .string t =>
    some (some (if s = t then .eq else if s.map UInt8.toNat < t.map UInt8.toNat then .lt else .gt))
  | _, _ => none

inductive Comparison where
  | equal
  | notEqual
  | less
  | lessEqual
  | greater
  | greaterEqual
deriving DecidableEq, Repr

/-- What a comparison comes to; all values compare as equal or not, only numbers and strings in an order.
What is no number is in no order. -/
def Comparison.holds? (op : Comparison) (v w : Value) : Option Bool :=
  let ordered (test : Ordering → Bool) := (v.compare? w).map fun o => (o.map test).getD false
  match op with
  | .equal => some (v.same w)
  | .notEqual => some !(v.same w)
  | .less => ordered (· == .lt)
  | .lessEqual => ordered (· != .gt)
  | .greater => ordered (· == .gt)
  | .greaterEqual => ordered (· != .lt)

/-! ### Arithmetic -/

inductive Arithmetic where
  | add
  | subtract
  | multiply
deriving DecidableEq, Repr

def Arithmetic.whole : Arithmetic → Int64 → Int64 → Int64
  | .add => (· + ·)
  | .subtract => (· - ·)
  | .multiply => (· * ·)

def Arithmetic.real : Arithmetic → Float → Float → Float
  | .add => (· + ·)
  | .subtract => (· - ·)
  | .multiply => (· * ·)

/-- Two integers give an integer, other numbers a float. -/
def Arithmetic.result? (op : Arithmetic) (v w : Value) : Option Value :=
  match v.number?, w.number? with
  | some (.integer a), some (.integer b) => some (.integer (op.whole a b))
  | some v, some w =>
    match v.float?, w.float? with
    | some x, some y => some (.number (op.real x y))
    | _, _ => none
  | _, _ => none

def Value.negated? (v : Value) : Option Value :=
  match v.number? with
  | some (.integer n) => some (.integer (-n))
  | some (.number x) => some (.number (-x))
  | _ => none

/-! ### Counting -/

/-- The turns of a loop that counts. -/
inductive Count where
  /-- So many turns, each with the integer of the turn before plus `step`. -/
  | whole (turns : Nat) (first step : Int64)
  /-- Turns up to `last`, or down to it if the step is negative. -/
  | real (first last step : Float)

/-- Why a loop cannot count. -/
inductive CountError where
  | notNumber (role : String)
  | zeroStep

def CountError.message : CountError → String
  | .notNumber role => "'for' " ++ role ++ " must be a number"
  | .zeroStep => "'for' step is zero"

/-- The last integer that a loop can reach: a limit that is no integer is rounded towards the start. What
is no number counts as a limit below all integers. -/
def wholeLimit? (up : Bool) (limit : Value) : Option Int :=
  match limit.number? with
  | some (.integer n) => some n.toInt
  | some (.number x) =>
    match Decimal.Binary.ofFloat x with
    | .nan _ => some (leastInteger - 1)
    | .infinity negative => some (if negative then leastInteger - 1 else greatestInteger + 1)
    | .finite b =>
      let (p, q) := Decimal.scale 2 b.exponent
      let size : Int := (b.mantissa * p : Nat)
      let value := if b.negative then -size else size
      some (if up then value / (q : Int) else -((-value) / (q : Int)))
  | _ => none

/-- The number of turns from `first` by `step` that do not pass `last`. -/
def turns (first last step : Int) : Nat :=
  if 0 < step then (if last < first then 0 else ((last - first) / step).toNat + 1)
  else (if first < last then 0 else ((first - last) / (-step)).toNat + 1)

/-- A loop counts in integers if its start and its step are integers. -/
def count (first limit step : Value) : Except CountError Count :=
  match first, step with
  | .integer a, .integer s =>
    if s.toInt = 0 then .error .zeroStep
    else
      match wholeLimit? (0 < s.toInt) limit with
      | none => .error (.notNumber "limit")
      | some l =>
        let l := if 0 < s.toInt then min greatestInteger l else max leastInteger l
        .ok (.whole (turns a.toInt l s.toInt) a s)
  | _, _ =>
    match limit.float?, step.float?, first.float? with
    | none, _, _ => .error (.notNumber "limit")
    | _, none, _ => .error (.notNumber "step")
    | _, _, none => .error (.notNumber "initial value")
    | some l, some s, some x => if s == 0.0 then .error .zeroStep else .ok (.real x l s)

end Provisioning.Config
