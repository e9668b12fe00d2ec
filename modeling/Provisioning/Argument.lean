import Provisioning.Json.Writer

/-! The arguments of a statement, and the ways a recipe looks at them. -/

namespace Provisioning

/-- A table has its keys in ascending order, each once. -/
inductive Argument where
  | string (s : String)
  | integer (n : Int64)
  | number (x : Float)
  | boolean (b : Bool)
  | array (items : List Argument)
  | table (fields : List (String × Argument))
deriving Repr, Inhabited

namespace Argument

def sortName : Argument → String
  | .string _ => "string"
  | .integer _ => "number"
  | .number _ => "number"
  | .boolean _ => "boolean"
  | .array _ => "array"
  | .table _ => "table"

/-- A string as it is, a number in its shortest form. -/
def text? : Argument → Option String
  | .string s => some s
  | .integer n => some (Decimal.integerText n.toInt)
  | .number x => some (Decimal.plain x)
  | _ => none

mutual

def toJson : Argument → Json
  | .string s => .string s
  | .integer n => .integer n.toInt
  | .number x => .real x
  | .boolean b => .boolean b
  | .array items => .array (itemsToJson items)
  | .table fields => .object (fieldsToJson fields)

def itemsToJson : List Argument → List Json
  | [] => []
  | a :: rest => toJson a :: itemsToJson rest

def fieldsToJson : List (String × Argument) → List (String × Json)
  | [] => []
  | (key, a) :: rest => (key, toJson a) :: fieldsToJson rest

end

/-- Puts a field in its place, instead of a field of the same key. -/
def insertField (key : String) (a : Argument) : List (String × Argument) → List (String × Argument)
  | [] => [(key, a)]
  | (k, b) :: rest =>
    if key < k then (key, a) :: (k, b) :: rest
    else if key = k then (key, a) :: rest
    else (k, b) :: insertField key a rest

/-- A table from fields in any order; of two fields of one key the later one counts. -/
def ofFields (fields : List (String × Argument)) : Argument :=
  .table (fields.foldl (fun t (key, a) => insertField key a t) [])

end Argument

/-- Why a recipe refuses its arguments. Positions count from one. -/
inductive ArgumentError where
  | missing (command : String) (position : Nat) (name : String)
  | wrongType (command : String) (position : Nat) (name expected found : String)
  | missingField (command key : String)
  | wrongField (command key expected found : String)
  | outOfRange (command key : String) (value : Int64)
  | missingBlock (command : String)
deriving DecidableEq, Repr

def ArgumentError.message : ArgumentError → String
  | .missing command position name =>
    command ++ ": missing argument #" ++ Decimal.digitText position ++ " (" ++ name ++ ")"
  | .wrongType command position name expected found =>
    command ++ ": argument #" ++ Decimal.digitText position ++ " (" ++ name ++ ") must be a " ++ expected
      ++ ", got " ++ found
  | .missingField command key => command ++ ": missing field '" ++ key ++ "'"
  | .wrongField command key expected found =>
    command ++ ": field '" ++ key ++ "' must be a " ++ expected ++ ", got " ++ found
  | .outOfRange command key value =>
    command ++ ": field '" ++ key ++ "' is out of range: " ++ Decimal.integerText value.toInt
  | .missingBlock command => command ++ ": expected a block"

/-- The arguments of one statement, with the statement's name for messages. -/
structure Arguments where
  command : String
  values : List Argument
deriving Repr

namespace Arguments

def size (a : Arguments) : Nat := a.values.length

def get? (a : Arguments) (index : Nat) : Option Argument := a.values[index]?

def require (a : Arguments) (index : Nat) (name : String) : Except ArgumentError Argument :=
  match a.get? index with
  | some v => .ok v
  | none => .error (.missing a.command (index + 1) name)

def string (a : Arguments) (index : Nat) (name : String) : Except ArgumentError String := do
  match ← a.require index name with
  | .string s => return s
  | other => throw (.wrongType a.command (index + 1) name "string" other.sortName)

/-- A text that may be left out; a string or a number. -/
def text? (a : Arguments) (index : Nat) (name : String) : Except ArgumentError (Option String) :=
  match a.get? index with
  | none => .ok none
  | some v =>
    match v.text? with
    | some t => .ok (some t)
    | none => .error (.wrongType a.command (index + 1) name "string or number" v.sortName)

def table (a : Arguments) (index : Nat) (name : String) :
    Except ArgumentError (List (String × Argument)) := do
  match ← a.require index name with
  | .table fields => return fields
  | other => throw (.wrongType a.command (index + 1) name "table" other.sortName)

def stringField (a : Arguments) (fields : List (String × Argument)) (key : String) :
    Except ArgumentError String :=
  match fields.lookup key with
  | some (.string s) => .ok s
  | some other => .error (.wrongField a.command key "string" other.sortName)
  | none => .error (.missingField a.command key)

/-- A port is an integer of sixteen bits. -/
def portField (a : Arguments) (fields : List (String × Argument)) (key : String) :
    Except ArgumentError UInt16 :=
  match fields.lookup key with
  | some (.integer n) =>
    if 0 ≤ n.toInt ∧ n.toInt < 65536 then .ok (UInt16.ofNat n.toInt.toNat)
    else .error (.outOfRange a.command key n)
  | some other => .error (.wrongField a.command key "integer" other.sortName)
  | none => .error (.missingField a.command key)

end Arguments

/-- A statement's arguments together with its block, which can be taken once. -/
structure Invocation (β : Type) where
  arguments : Arguments
  block : Option β

/-- The block, and the invocation without it. -/
def Invocation.takeBlock {β : Type} (i : Invocation β) : Except ArgumentError β × Invocation β :=
  match i.block with
  | some b => (.ok b, { i with block := none })
  | none => (.error (.missingBlock i.arguments.command), i)

end Provisioning
