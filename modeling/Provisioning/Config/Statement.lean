import Provisioning.Config.Value

/-! Statements of a configuration as data, without a program text: calls of global names with values that
are written down, and the blocks among those values. -/

namespace Provisioning.Config

mutual

/-- A value that is written down. Making it makes new tables and functions. -/
inductive Datum where
  | nil
  | boolean (b : Bool)
  | integer (n : Int64)
  | number (x : Float)
  | string (s : Bytes)
  /-- A table of the items under the keys from one on. -/
  | list (items : List Datum)
  /-- A table of pairs, set one after another. -/
  | table (pairs : List (Datum × Datum))
  /-- The table that is being made, so many tables further out. -/
  | enclosing (levels : Nat)
  | thread
  /-- A function that runs statements. -/
  | block (statements : List Statement)

inductive Statement where
  | call (name : Datum) (arguments : List Datum)
  | read (key : Datum)
  | assign (key value : Datum)
  | fail (message : String)
  /-- A statement whose error ends nothing. -/
  | guarded (statement : Statement)

end

/-- Where a statement stands: which of the statements outside of all blocks it is in, and how many blocks
are around it. -/
structure Position where
  origin : Nat
  depth : Nat
deriving DecidableEq, Repr

/-- One block further in. -/
def Position.inner (p : Position) : Position := { p with depth := p.depth + 1 }

instance : Inhabited Datum := ⟨.nil⟩
instance : Inhabited Statement := ⟨.fail ""⟩

end Provisioning.Config
