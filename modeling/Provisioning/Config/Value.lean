import Provisioning.Text.Ascii
import Provisioning.Decimal.Layout

/-! The values of the configuration language. Tables, functions and faults are addresses in a memory, so
that two of them are equal when they are the same one. -/

namespace Provisioning.Config

/-- A string of the language; any bytes. -/
abbrev Bytes := List UInt8

/-- A place in a memory. -/
abbrev Address := Nat

inductive Value where
  | nil
  | boolean (b : Bool)
  | integer (n : Int64)
  | number (x : Float)
  | string (s : Bytes)
  | table (a : Address)
  | function (a : Address)
  | thread (a : Address)
  /-- An error of the program that runs the configuration. -/
  | fault (a : Address)
deriving Repr, Inhabited

namespace Value

/-- The string of a text. -/
def text (s : String) : Value := .string (Text.utf8 s)

def isNil : Value → Bool
  | .nil => true
  | _ => false

/-- Only `nil` and `false` are no. -/
def truth : Value → Bool
  | .nil => false
  | .boolean b => b
  | _ => true

/-- The name of the type in messages. -/
def typeName : Value → String
  | .nil => "nil"
  | .boolean _ => "boolean"
  | .integer _ => "integer"
  | .number _ => "number"
  | .string _ => "string"
  | .table _ => "table"
  | .function _ => "function"
  | .thread _ => "thread"
  | .fault _ => "error"

/-- The name of the type that a configuration sees. -/
def sortName : Value → String
  | .integer _ => "number"
  | .fault _ => "userdata"
  | v => v.typeName

end Value

/-- The bounds of the integers. -/
def leastInteger : Int := Int64.minValue.toInt
def greatestInteger : Int := Int64.maxValue.toInt

/-- The integer that a float equals, if it is one of 64 bits. -/
def wholeNumber? (x : Float) : Option Int64 :=
  match Decimal.Binary.ofFloat x with
  | .finite b =>
    let (n, d) := Decimal.scale 2 b.exponent
    let size := b.mantissa * n
    if size % d ≠ 0 then none
    else
      let k : Int := if b.negative then -(size / d : Nat) else (size / d : Nat)
      if leastInteger ≤ k ∧ k ≤ greatestInteger then some (Int64.ofInt k) else none
  | _ => none

/-- What a table can have under one key. A float that equals an integer is the same key as the
integer. -/
inductive Key where
  | boolean (b : Bool)
  | integer (n : Int64)
  | number (bits : UInt64)
  | string (s : Bytes)
  | table (a : Address)
  | function (a : Address)
  | thread (a : Address)
  | fault (a : Address)
deriving DecidableEq, Repr

namespace Key

/-- Everything but `nil` and what is no number is a key. -/
def ofValue? : Value → Option Key
  | .nil => none
  | .boolean b => some (.boolean b)
  | .integer n => some (.integer n)
  | .number x =>
    match wholeNumber? x with
    | some n => some (.integer n)
    | none => if x.isNaN then none else some (.number x.toBits)
  | .string s => some (.string s)
  | .table a => some (.table a)
  | .function a => some (.function a)
  | .thread a => some (.thread a)
  | .fault a => some (.fault a)

def toValue : Key → Value
  | .boolean b => .boolean b
  | .integer n => .integer n
  | .number bits => .number (Float.ofBits bits)
  | .string s => .string s
  | .table a => .table a
  | .function a => .function a
  | .thread a => .thread a
  | .fault a => .fault a

/-- The key of a text. -/
def text (s : String) : Key := .string (Text.utf8 s)

end Key

/-- Equality without a conversion between numbers and strings. Nothing equals what is no key, except
`nil` itself. -/
def Value.same (v w : Value) : Bool :=
  match Key.ofValue? v, Key.ofValue? w with
  | some k, some l => k = l
  | none, none => v.isNil && w.isNil
  | _, _ => false

end Provisioning.Config
