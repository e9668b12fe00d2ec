import Provisioning.Decimal.Binary

/-! The shortest decimal that reads back as a given float, and of several of that length the one
nearest to the float's exact value; and the decimal of a given number of digits nearest to it. -/

namespace Provisioning.Decimal

/-- A decimal `digits * 10 ^ exponent`. -/
structure Digits where
  digits : Nat
  exponent : Int
deriving DecidableEq, Repr

/-- Which of two equally near decimals is taken. -/
inductive Tie where
  | up
  | toEven
deriving DecidableEq, Repr

/-- Moves factors of ten from the digits to the exponent, `fuel` at most. -/
def Digits.strip : Nat → Digits → Digits
  | 0, d => d
  | fuel + 1, d =>
    if d.digits ≠ 0 ∧ d.digits % 10 = 0 then strip fuel ⟨d.digits / 10, d.exponent + 1⟩ else d

namespace Binary

/-- The float whose bits are `mantissa` at `exponent` is the only one with this mantissa size whose
lower neighbour is nearer than the upper one. -/
def closerBelow (b : Binary) : Bool :=
  b.mantissa = Nat.pow 2 fractionBits && leastExponent < b.exponent

/-- `d * 10 ^ p` reads back as the float: it lies between the midpoints to the neighbours, the ends
included iff the mantissa is even. -/
def readsBack (b : Binary) (d : Nat) (p : Int) : Bool :=
  let low := if b.closerBelow then 4 * b.mantissa - 1 else 4 * b.mantissa - 2
  let high := 4 * b.mantissa + 2
  let below := compareScaled d p low (b.exponent - 2)
  let above := compareScaled d p high (b.exponent - 2)
  if b.mantissa % 2 = 0 then below ≠ .lt && above ≠ .gt else below = .gt && above = .lt

/-- Of `d` and `d + 1` times `10 ^ p`, the nearer to the float's value, which lies between them. -/
def nearer (tie : Tie) (b : Binary) (d : Nat) (p : Int) : Nat :=
  match compareScaled (2 * d + 1) p (2 * b.mantissa) b.exponent with
  | .gt => d
  | .lt => d + 1
  | .eq =>
    match tie with
    | .up => d + 1
    | .toEven => if d % 2 = 0 then d else d + 1

/-- The decimal at the power `p` that reads back as the float, if there is one. -/
def atPower? (tie : Tie) (b : Binary) (p : Int) : Option Nat :=
  let d := quotient b.mantissa b.exponent p
  match b.readsBack d p, b.readsBack (d + 1) p with
  | true, true => some (b.nearer tie d p)
  | true, false => some d
  | false, true => some (d + 1)
  | false, false => none

/-- Tries the powers from `p` downwards, `fuel` of them. -/
def firstPower (tie : Tie) (b : Binary) : Nat → Int → Digits
  | 0, p => ⟨quotient b.mantissa b.exponent p, p⟩
  | fuel + 1, p =>
    match b.atPower? tie p with
    | some d => ⟨d, p⟩
    | none => firstPower tie b fuel (p - 1)

/-- The shortest decimal of a float other than zero. Seventeen digits always suffice. -/
def shortest (tie : Tie) (b : Binary) : Digits :=
  (firstPower tie b 17 (magnitude b.mantissa b.exponent)).strip 17

/-- The decimal of `count` digits nearest to a float other than zero, a tie going to the even one. -/
def rounded (count : Nat) (b : Binary) : Digits :=
  let p := magnitude b.mantissa b.exponent - (count - 1 : Nat)
  let d := quotient b.mantissa b.exponent p
  let exact := compareScaled d p b.mantissa b.exponent = .eq
  Digits.strip (count + 1) ⟨if exact then d else b.nearer .toEven d p, p⟩

end Binary

end Provisioning.Decimal
