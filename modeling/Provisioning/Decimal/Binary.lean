/-! The number that a 64-bit float stands for, as an integer times a power of two, and comparison with
a power of ten, all in exact integers. -/

namespace Provisioning.Decimal

/-- A finite float: the value is `mantissa * 2 ^ exponent`, with a sign. -/
structure Binary where
  negative : Bool
  mantissa : Nat
  exponent : Int
deriving DecidableEq, Repr

/-- What a float stands for. -/
inductive Meaning where
  | finite (value : Binary)
  | infinity (negative : Bool)
  | nan (negative : Bool)
deriving DecidableEq, Repr

namespace Binary

/-- The bits below the exponent of a 64-bit float, and the exponent of its smallest step. -/
def fractionBits : Nat := 52
def leastExponent : Int := -1074

/-- The meaning of 64 bits. -/
def ofBits (bits : UInt64) : Meaning :=
  let negative := Nat.pow 2 63 ≤ bits.toNat
  let biased := bits.toNat / Nat.pow 2 fractionBits % 2048
  let fraction := bits.toNat % Nat.pow 2 fractionBits
  if biased = 2047 then
    if fraction = 0 then .infinity negative else .nan negative
  else if biased = 0 then .finite ⟨negative, fraction, leastExponent⟩
  else .finite ⟨negative, Nat.pow 2 fractionBits + fraction, leastExponent + (biased - 1 : Nat)⟩

def ofFloat (x : Float) : Meaning := ofBits x.toBits

end Binary

/-- A number written `count * base ^ power`, with a power of either sign, as a fraction. -/
def scale (base : Nat) (power : Int) : Nat × Nat :=
  match power with
  | .ofNat n => (Nat.pow base n, 1)
  | .negSucc n => (1, Nat.pow base (n + 1))

/-- Compares `a * 10 ^ p` with `b * 2 ^ q`. -/
def compareScaled (a : Nat) (p : Int) (b : Nat) (q : Int) : Ordering :=
  let (pn, pd) := scale 10 p
  let (qn, qd) := scale 2 q
  compare (a * pn * qd) (b * qn * pd)

/-- The whole part of `m * 2 ^ q / 10 ^ p`. -/
def quotient (m : Nat) (q p : Int) : Nat :=
  let (pn, pd) := scale 10 p
  let (qn, qd) := scale 2 q
  (m * qn * pd) / (qd * pn)

/-- Lowers `e` until `10 ^ e` is at most `m * 2 ^ q`, `fuel` times at most. -/
def lowerToMagnitude (m : Nat) (q : Int) : Nat → Int → Int
  | 0, e => e
  | fuel + 1, e =>
    if compareScaled 1 e m q = .gt then lowerToMagnitude m q fuel (e - 1) else e

/-- The exponent `e` with `10 ^ e ≤ m * 2 ^ q < 10 ^ (e + 1)`, for `0 < m`. The search starts at an
estimate that is never too low, from the number of bits. -/
def magnitude (m : Nat) (q : Int) : Int :=
  let bits : Int := Nat.log2 m + q
  let start : Int := if 0 ≤ bits then bits * 30103 / 100000 + 1 else bits * 30102 / 100000 + 1
  lowerToMagnitude m q 4 start

end Provisioning.Decimal
