import Provisioning.Argument
import Provisioning.Config.Memory
import Provisioning.Text.Blank

/-! Values of the language as arguments of a statement. A table is an array if it has a first item and a
length, and a table with text keys otherwise. A table that is reached again from inside itself is refused;
one that is reached in two places is converted twice. A table remembers that its length was asked for and
how far its items were looked at, so that a conversion tells what it looked at. -/

namespace Provisioning.Config

/-- A look at a table. -/
inductive Look where
  | length (a : Address)
  | item (a : Address) (n : Nat)

/-- A conversion, with what it has looked at, the last look first. -/
abbrev Conversion (α : Type) := ExceptT Fault (StateM (List Look)) α

namespace Conversion

def look (l : Look) : Conversion Unit := modify (l :: ·)

end Conversion

namespace Memory

/-- The text of a string, or the fault for the defect that keeps it from being one. -/
def textOr (fault : Text.Defect → Fault) (s : Bytes) : Except Fault String :=
  match Text.ofUtf8? s with
  | some t => .ok t
  | none => .error (fault ((Text.defect? s).getD ⟨0, none⟩))

def text (s : Bytes) : Except Fault String := textOr .notText s

def keyText : Key → Except Fault String
  | .string s => text s
  | k => .error (.keyNotString k.toValue.typeName)

/-- Converts a value inside of the tables `path`. Each table that is entered is another one, so that
`depth` need not be more than the number of tables. -/
def convertInside (m : Memory) : Nat → List Address → Value → Conversion Argument
  | _, _, .nil => throw .nilInside
  | _, _, .boolean b => pure (.boolean b)
  | _, _, .integer n => pure (.integer n)
  | _, _, .number x => pure (.number x)
  | _, _, .string s => do return .string (← liftExcept (text s))
  | 0, _, .table _ => throw .cyclicTable
  | depth + 1, path, .table a => do
    if a ∈ path then throw .cyclicTable
    let t := m.table a
    Conversion.look (.length a)
    Conversion.look (.item a 1)
    if 0 < t.length ∧ !(t.item 1).isNil then
      let items ← (List.range t.length).mapM fun i => do
        Conversion.look (.item a (i + 1))
        convertInside m depth (a :: path) (t.item (i + 1))
      return .array items
    else
      let fields ← t.pairs.mapM fun (k, v) => do
        return (← liftExcept (keyText k), ← convertInside m depth (a :: path) v)
      return .ofFields fields
  | _, _, .function a => throw (.unsupported (Value.function a).typeName)
  | _, _, .thread a => throw (.unsupported (Value.thread a).typeName)
  | _, _, .fault a => throw (.unsupported (Value.fault a).typeName)
where
  liftExcept {α : Type} (r : Except Fault α) : Conversion α := ExceptT.mk (pure r)

/-- A value as an argument. -/
def conversion (m : Memory) (v : Value) : Conversion Argument :=
  m.convertInside (m.tables.size + 1) [] v

/-- A value as an argument, whatever was looked at. -/
def convert (m : Memory) (v : Value) : Except Fault Argument := ((m.conversion v).run.run []).1

/-- The values as arguments and, if the last one is a function, that function as block. What is `nil` at
the end is left out. -/
def arguments (m : Memory) (values : List Value) : Conversion (List Argument × Option Address) := do
  let values := Text.dropEndWhile Value.isNil values
  let (values, block) : List Value × Option Address :=
    match values.getLast? with
    | some (.function a) => (values.dropLast, some a)
    | _ => (values, none)
  let converted ← values.mapM fun v =>
    match v with
    | .function _ => throw .blockNotLast
    | v => m.conversion v
  return (converted, block)

/-- The memory after a look. -/
def looked (m : Memory) : Look → Memory
  | .length a => m.changeTable a Table.measured
  | .item a n => m.changeTable a fun t => t.reach (.integer (Int64.ofNat n))

end Memory

end Provisioning.Config
