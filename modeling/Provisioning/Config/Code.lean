import Provisioning.Config.Program

/-! Code: what a machine with registers does to run a function of the configuration language. A variable
of the function is a register, so that an instruction that reads one sees what was written to it last. -/

namespace Provisioning.Config

/-- What an instruction reads. -/
inductive Operand where
  | register (r : Nat)
  | constant (v : Value)
deriving Repr, Inhabited

/-- Where an instruction finds the table that it looks at or changes. -/
inductive Holder where
  | register (r : Nat)
  /-- A variable of a function around this one. -/
  | captured (i : Nat)
deriving DecidableEq, Repr

/-- Where a function that is made finds a variable of the function that makes it. -/
inductive Capture where
  | register (r : Nat)
  | captured (i : Nat)
deriving DecidableEq, Repr

/-- One instruction. A target is the number of another instruction, and `about` tells in messages what an
operand is. Without a number of values, those up to the top of the stack are meant. -/
inductive Instruction where
  | load (dest : Nat) (v : Operand)
  /-- Sets registers to `nil`. -/
  | clear (first count : Nat)
  /-- Reads a captured variable. -/
  | fetch (dest i : Nat)
  /-- Writes a captured variable. -/
  | store (i r : Nat)
  | get (dest : Nat) (holder : Holder) (key : Operand) (about : String)
  | put (holder : Holder) (key v : Operand) (about : String)
  /-- A new table with room for a row and for other keys. -/
  | create (dest row others : Nat)
  /-- Puts the registers after a table's into its row, after the first `start` places. -/
  | fill (table start : Nat) (count : Option Nat)
  | unary (op : UnaryOperator) (dest r : Nat) (about : String)
  | arithmetic (op : Arithmetic) (dest : Nat) (left right : Operand) (aboutLeft aboutRight : String)
  /-- Joins registers to one string, in the first of them. -/
  | join (first count : Nat) (about : List String)
  | jump (target : Nat)
  /-- Jumps if the truth of a register is `truth`. -/
  | test (r : Nat) (truth : Bool) (target : Nat)
  /-- The same, and sets `dest` to the register if it jumps. -/
  | testKeep (dest r : Nat) (truth : Bool) (target : Nat)
  /-- Jumps if the comparison comes to `truth`. -/
  | compare (op : Comparison) (left right : Operand) (truth : Bool) (target : Nat)
  /-- Makes a function of the code with a number. -/
  | function (dest i : Nat)
  /-- Ends the variables from a register on: functions that captured them keep them. -/
  | close (first : Nat)
  /-- Calls the first register with those after it as arguments. The results start in its place. -/
  | call (first : Nat) (arguments results : Option Nat) (about : String)
  /-- Calls a function that takes the place of this one. -/
  | tailCall (first : Nat) (arguments : Option Nat) (about : String)
  | leave (first : Nat) (count : Option Nat)
  /-- Starts a loop that counts: the start, the limit and the step are in three registers, and the number
  of a turn in the next one. Jumps if there is no turn. -/
  | startCount (first target : Nat)
  /-- Jumps if there is a next turn. -/
  | nextCount (first target : Nat)
  /-- Starts a loop with an iterator, its two arguments and a value that must not need closing in four
  registers. -/
  | startEach (first target : Nat)
  /-- Calls the iterator for values in the registers after the four. -/
  | callEach (first results : Nat)
  /-- Jumps if the first of those values is not `nil`. -/
  | nextEach (first target : Nat)
deriving Inhabited

/-- The code of a function. -/
structure Code where
  /-- The name of the text that it is from. -/
  source : String
  parameters : Nat
  /-- The number of registers. -/
  registers : Nat
  instructions : Array Instruction
  /-- The line of each instruction. -/
  lines : Array Nat
  captures : Array Capture
  /-- The code of the functions inside. -/
  functions : Array Code
deriving Inhabited

namespace Instruction

/-- The same instruction with another target. -/
def retarget (target : Nat) : Instruction → Instruction
  | .jump _ => .jump target
  | .test r truth _ => .test r truth target
  | .testKeep dest r truth _ => .testKeep dest r truth target
  | .compare op left right truth _ => .compare op left right truth target
  | .startCount first _ => .startCount first target
  | .nextCount first _ => .nextCount first target
  | .startEach first _ => .startEach first target
  | .nextEach first _ => .nextEach first target
  | i => i

/-- The same call with another number of results. -/
def wanting (results : Option Nat) : Instruction → Instruction
  | .call first arguments _ about => .call first arguments results about
  | i => i

/-- The same call at the end of a function. -/
def atEnd : Instruction → Instruction
  | .call first arguments _ about => .tailCall first arguments about
  | i => i

end Instruction

end Provisioning.Config
