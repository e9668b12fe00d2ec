import Provisioning.Config.Number

/-! Programs of the configuration language. What can fail when it runs knows its line. -/

namespace Provisioning.Config

inductive UnaryOperator where
  | not
  | negate
  | length
deriving DecidableEq, Repr

/-- The operators that take both operands; `and` and `or` are expressions of their own. -/
inductive BinaryOperator where
  | concat
  | arithmetic (op : Arithmetic)
  | comparison (op : Comparison)
deriving DecidableEq, Repr

mutual

inductive Expression where
  | constant (v : Value)
  | variable (name : String) (line : Nat)
  | index (table key : Expression) (line : Nat)
  | call (callee : Expression) (arguments : List Expression) (line : Nat)
  | function (parameters : List String) (body : List Step)
  | table (fields : List Field)
  | unary (op : UnaryOperator) (operand : Expression) (line : Nat)
  | binary (op : BinaryOperator) (left right : Expression) (line : Nat)
  | and (left right : Expression)
  | or (left right : Expression)
  /-- An expression in parentheses has one value. -/
  | group (inner : Expression)

inductive Field where
  | item (value : Expression)
  | entry (key value : Expression) (line : Nat)

/-- One step of a program. -/
inductive Step where
  | evaluate (call : Expression)
  | declare (names : List String) (values : List Expression)
  | declareFunction (name : String) (parameters : List String) (body : List Step)
  | assign (targets values : List Expression) (line : Nat)
  | branch (condition : Expression) (yes no : List Step)
  | loopWhile (condition : Expression) (body : List Step)
  /-- Without a step, the loop counts by one. -/
  | loopFrom (name : String) (first last : Expression) (step : Option Expression) (body : List Step)
      (line : Nat)
  | loopOver (names : List String) (values : List Expression) (body : List Step) (line : Nat)
  | block (body : List Step)
  | leave (values : List Expression)

end

instance : Inhabited Expression := ⟨.constant .nil⟩
instance : Inhabited Field := ⟨.item default⟩
instance : Inhabited Step := ⟨.block []⟩

abbrev Program := List Step

/-- Why a text is no program. -/
inductive Refusal where
  | malformed
  /-- It nests too deep to be read. -/
  | tooDeep
deriving DecidableEq, Repr

end Provisioning.Config
