import Provisioning.Decimal.Shortest

/-! The texts of a float: the plain one that recipes insert into scripts, the one of JSON, and the one
that the configuration language writes. They differ in digits, in where positional notation ends and in
what stands for a whole number. -/

namespace Provisioning.Decimal

/-- The decimal digits of a number. -/
def digitText (n : Nat) : String := String.ofList (Nat.toDigits 10 n)

def integerText (n : Int) : String :=
  match n with
  | .ofNat n => digitText n
  | .negSucc n => "-" ++ digitText (n + 1)

def zeros (n : Nat) : String := String.ofList (List.replicate n '0')

/-- The digits without an exponent. -/
def positional (d : Digits) : String :=
  let text := digitText d.digits
  match d.exponent with
  | .ofNat n => text ++ zeros n
  | .negSucc n =>
    let places := n + 1
    if places < text.length then
      String.ofList (text.toList.take (text.length - places)) ++ "."
        ++ String.ofList (text.toList.drop (text.length - places))
    else "0." ++ zeros (places - text.length) ++ text

/-- The exponent of the first digit. -/
def Digits.leading (d : Digits) : Int := d.exponent + ((digitText d.digits).length - 1 : Nat)

/-- One digit, the others after a point, and the exponent with its sign in at least `width` digits. -/
def scientific (width : Nat) (d : Digits) : String :=
  let text := (digitText d.digits).toList
  let shown := digitText d.leading.natAbs
  String.ofList (text.take 1) ++ (if text.length ≤ 1 then "" else "." ++ String.ofList (text.drop 1))
    ++ "e" ++ (if d.leading < 0 then "-" else "+") ++ zeros (width - shown.length) ++ shown

def sign (negative : Bool) : String := if negative then "-" else ""

/-- The shortest digits, never an exponent, and nothing after a whole number. -/
def plain (x : Float) : String :=
  match Binary.ofFloat x with
  | .nan _ => "NaN"
  | .infinity negative => sign negative ++ "inf"
  | .finite b =>
    sign b.negative ++ (if b.mantissa = 0 then "0" else positional (b.shortest .up))

/-- The shortest digits, a point in every whole number, and an exponent outside of 1e-5 to 1e16. A
float that is not finite has no text in JSON and is written as null. -/
def json (x : Float) : String :=
  match Binary.ofFloat x with
  | .nan _ => "null"
  | .infinity _ => "null"
  | .finite b =>
    sign b.negative ++
      if b.mantissa = 0 then "0.0"
      else
        let d := b.shortest .toEven
        if -5 ≤ d.leading ∧ d.leading < 16 then
          positional d ++ (if 0 ≤ d.exponent then ".0" else "")
        else scientific 1 d

/-- Fourteen digits without the zeros at the end, an exponent of two digits at least outside of 1e-4
to 1e14, and a point in every whole number. -/
def fourteen (x : Float) : String :=
  match Binary.ofFloat x with
  | .nan negative => sign negative ++ "nan"
  | .infinity negative => sign negative ++ "inf"
  | .finite b =>
    sign b.negative ++
      if b.mantissa = 0 then "0.0"
      else
        let d := b.rounded 14
        if -4 ≤ d.leading ∧ d.leading < 14 then
          positional d ++ (if 0 ≤ d.exponent then ".0" else "")
        else scientific 2 d

/-! ### Reading -/

/-- The number that decimal digits stand for. -/
def ofDigits (digits : List Char) : Nat :=
  digits.foldl (fun n c => 10 * n + (c.toNat - 48)) 0

/-- The float nearest to `mantissa * 10 ^ exponent`. The largest float has 309 digits before the point,
and half of the smallest one no digit in the first 323 places after it. -/
def nearest (mantissa : Nat) (exponent : Int) : Float :=
  let size : Int := (digitText mantissa).length + exponent
  if mantissa = 0 ∨ size < -323 then 0.0
  else if 309 < size then 1.0 / 0.0
  else
    match exponent with
    | .ofNat n => Float.ofScientific mantissa false n
    | .negSucc n => Float.ofScientific mantissa true (n + 1)

/-- A decimal text without a sign, split into the digits before the point, those after it and the
exponent. There is a digit before or after the point, and a digit in the exponent if there is one. -/
def parts? (cs : List Char) : Option (List Char × List Char × Int) :=
  let whole := cs.takeWhile Char.isDigit
  let rest := cs.dropWhile Char.isDigit
  let (fraction, rest) :=
    match rest with
    | '.' :: rest => (rest.takeWhile Char.isDigit, rest.dropWhile Char.isDigit)
    | rest => ([], rest)
  if whole.isEmpty && fraction.isEmpty then none
  else
    match rest with
    | [] => some (whole, fraction, 0)
    | e :: rest =>
      if e = 'e' ∨ e = 'E' then
        let (negative, power) :=
          match rest with
          | '-' :: power => (true, power)
          | '+' :: power => (false, power)
          | power => (false, power)
        if power.isEmpty || !power.all Char.isDigit then none
        else
          let n : Int := ofDigits power
          some (whole, fraction, if negative then -n else n)
      else none

/-- The float nearest to the number that `parts?` has split. -/
def ofParts (whole fraction : List Char) (exponent : Int) : Float :=
  nearest (ofDigits (whole ++ fraction)) (exponent - fraction.length)

/-- Reads a decimal with an optional sign, or one of the words for infinity and for no number, in any
case of letters. -/
def parse? (text : String) : Option Float :=
  let (negative, cs) :=
    match text.toList with
    | '-' :: cs => (true, cs)
    | '+' :: cs => (false, cs)
    | cs => (false, cs)
  let word := String.ofList (cs.map Char.toLower)
  let magnitude? : Option Float :=
    if word = "inf" ∨ word = "infinity" then some (1.0 / 0.0)
    else if word = "nan" then some (0.0 / 0.0)
    else (parts? cs).map fun (whole, fraction, exponent) => ofParts whole fraction exponent
  magnitude?.map fun x => if negative then -x else x

end Provisioning.Decimal
