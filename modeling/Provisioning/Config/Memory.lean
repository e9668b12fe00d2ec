import Provisioning.Config.Code
import Provisioning.Config.Statement
import Provisioning.Config.Table
import Provisioning.Text.Defect

/-! The memory of a configuration that runs: its tables, its functions, and a stack with the registers of
all functions that have been called and have not ended. -/

namespace Provisioning.Config

/-! ### Functions -/

/-- The functions that a configuration finds under global names. -/
inductive Builtin where
  | assert
  | changeDirectory
  | collectGarbage
  | doFile
  | error
  | getMetatable
  | ipairs
  | ipairsNext
  | load
  | loadFile
  | next
  | pairs
  | pcall
  | print
  | rawEqual
  | rawGet
  | rawLength
  | rawSet
  | require
  | select
  | setMetatable
  | toNumber
  | toText
  | type
  | warn
  | xpcall
deriving DecidableEq, Repr

/-- What a function does when it is called. -/
inductive Callable where
  /-- Code with the cells of the variables that it captured. -/
  | closure (code : Code) (captured : Array Address)
  /-- Statements as data. -/
  | statements (position : Position) (block : List Statement)
  /-- Statements about a subject, the action being the first argument. -/
  | subject (name : String)
  /-- Statements of one action. -/
  | action (subject name : String)
  | builtin (b : Builtin)

/-! ### Errors -/

/-- An error that the program that runs the configuration raises in it. -/
inductive Fault where
  | nilInside
  | blockNotLast
  | cyclicTable
  | keyNotString (typeName : String)
  | unsupported (typeName : String)
  | actionNotString (subject typeName : String)
  | notCallable (typeName : String)
  /-- A string that is no UTF-8 where a text is needed. -/
  | notText (defect : Text.Defect)
  /-- A directory that is no UTF-8. -/
  | directoryNotText (defect : Text.Defect)
  /-- A directory that is neither a string nor a number. -/
  | directoryNotString (typeName : String)
  /-- What a directory is opened for is no function. -/
  | bodyNotFunction (typeName : String)
  /-- A failed statement, or any other error, with its message. -/
  | statement (message : String)
deriving DecidableEq, Repr

def Fault.message : Fault → String
  | .nilInside => "nil is only allowed as a trailing argument"
  | .blockNotLast => "a block must be the last argument"
  | .cyclicTable => "cyclic table passed as an argument"
  | .keyNotString typeName => "table keys must be strings, got " ++ typeName
  | .unsupported typeName => "unsupported argument type: " ++ typeName
  | .actionNotString subject typeName => subject ++ ": action name must be a string, got " ++ typeName
  | .notCallable typeName => "not callable: " ++ typeName
  | .notText d => "error converting Lua string to &str (" ++ d.message ++ ")"
  | .directoryNotText d => "bad argument #1: error converting Lua string to String (" ++ d.message ++ ")"
  | .directoryNotString typeName =>
    "bad argument #1: error converting Lua " ++ typeName ++ " to String (expected string or number)"
  | .bodyNotFunction typeName => "bad argument #2: error converting Lua " ++ typeName ++ " to function"
  | .statement message => message

/-- Why a configuration ends early. -/
inductive Complaint where
  | fault (f : Fault)
  /-- An error of the language, or one that the configuration raises itself. -/
  | raised (message : String)
deriving DecidableEq, Repr

def Complaint.message : Complaint → String
  | .fault f => f.message
  | .raised message => "runtime error: " ++ message

/-! ### Statements as data -/

/-- What a statement given as data comes to. -/
inductive Success where
  | called
  | read (typeName : String)
  | assigned
deriving DecidableEq, Repr

/-- A statement given as data that has finished. -/
structure Outcome where
  depth : Nat
  result : Except Complaint Success

/-! ### Memory -/

/-- A captured variable. It is on the stack until its block ends. -/
inductive Cell where
  | onStack (place : Nat)
  | own (v : Value)
deriving Inhabited

/-- A function of the language that has not ended. Its registers start at `base`, after the function
itself. -/
structure Frame where
  code : Code
  captured : Array Address
  base : Nat
  /-- The number of the next instruction. -/
  next : Nat
  /-- The number of results that the caller wants; all of them if there is no number. -/
  wanted : Option Nat
  /-- It was not called by a function of the language. -/
  entry : Bool
deriving Inhabited

/-- A call that has not ended. -/
inductive Activation where
  | function (f : Frame)
  /-- A function that has no code. -/
  | builtin

structure Memory where
  tables : Array Table
  functions : Array Callable
  cells : Array Cell
  /-- The cells of the variables on the stack, the last place first. -/
  openCells : List (Nat × Address)
  stack : Array Value
  /-- The first place of the stack that is not in use; inside a function of the language, the place after
  the last values that were not counted. -/
  top : Nat
  /-- The calls that have not ended, the innermost first. -/
  activations : List Activation
  faults : Array Fault
  /-- The number of threads. -/
  threads : Nat
  /-- The number of statements given as data, outside of all blocks, that have ended. -/
  finished : Nat
  /-- What has finished in the statement after those. -/
  outcomes : List Outcome
  /-- A run was given up. -/
  exhausted : Bool

instance : Inhabited Memory := ⟨⟨#[], #[], #[], [], #[], 0, [], #[], 0, 0, [], false⟩⟩

/-- The line of the instruction that is being run. -/
def Frame.line (f : Frame) : Nat := f.code.lines.getD (f.next - 1) 0

/-- Where a frame stands, as messages start with it. -/
def Frame.position (f : Frame) : String := f.code.source ++ ":" ++ Decimal.digitText f.line ++ ": "

namespace Memory

def empty : Memory := default

/-! ### New things -/

def newTable (m : Memory) (t : Table) : Address × Memory :=
  (m.tables.size, { m with tables := m.tables.push t })

def newFunction (m : Memory) (f : Callable) : Address × Memory :=
  (m.functions.size, { m with functions := m.functions.push f })

def newFault (m : Memory) (f : Fault) : Address × Memory :=
  (m.faults.size, { m with faults := m.faults.push f })

def newThread (m : Memory) : Address × Memory := (m.threads, { m with threads := m.threads + 1 })

/-! ### Tables -/

def table (m : Memory) (a : Address) : Table := m.tables.getD a .empty

def changeTable (m : Memory) (a : Address) (f : Table → Table) : Memory :=
  { m with tables := m.tables.modify a f }

def setTable (m : Memory) (a : Address) (k : Key) (v : Value) : Memory :=
  m.changeTable a fun t => t.set k v

/-- The value of a table under a key, and the memory after the look at it. -/
def lookAt (m : Memory) (a : Address) (key : Value) : Value × Memory :=
  match Key.ofValue? key with
  | none => (.nil, m)
  | some k =>
    let t := m.table a
    let v := t.get k
    if t.isBeyond k then (v, m.changeTable a fun t => t.reach k) else (v, m)

/-- The length of a table, and the memory after it was measured. -/
def measure (m : Memory) (a : Address) : Nat × Memory :=
  ((m.table a).length, m.changeTable a Table.measured)

/-- The table of the global names. -/
def globals : Address := 0

/-! ### The stack -/

/-- The number of places that the stack may have. -/
def maxStack : Nat := 1000000

def onStack (m : Memory) (i : Nat) : Value := m.stack.getD i .nil

def setOnStack (m : Memory) (i : Nat) (v : Value) : Memory :=
  { m with stack := m.stack.setIfInBounds i v }

/-- The values of `count` places. -/
def slice (m : Memory) (start count : Nat) : List Value :=
  (List.range' start count).map m.onStack

/-- A stack that has `n` places at least. -/
def extend (n : Nat) (stack : Array Value) : Array Value :=
  if n ≤ stack.size then stack else stack ++ Array.replicate (n - stack.size) .nil

/-- Puts values on places that the stack has. -/
def write (stack : Array Value) (i : Nat) : List Value → Array Value
  | [] => stack
  | v :: rest => write (stack.setIfInBounds i v) (i + 1) rest

/-- Puts as many values on the stack as are wanted; missing ones are `nil`. Values that are not counted
move the top. -/
def deliver (m : Memory) (place : Nat) (wanted : Option Nat) (values : List Value) : Memory :=
  match wanted with
  | some n =>
    let values := values.take n
    let values := values ++ List.replicate (n - values.length) .nil
    { m with stack := write m.stack place values }
  | none =>
    let top := place + values.length
    { m with stack := write (extend top m.stack) place values, top }

/-! ### Cells -/

def cell (m : Memory) (a : Address) : Value :=
  match m.cells.getD a default with
  | .onStack i => m.onStack i
  | .own v => v

def setCell (m : Memory) (a : Address) (v : Value) : Memory :=
  match m.cells.getD a default with
  | .onStack i => m.setOnStack i v
  | .own _ => { m with cells := m.cells.setIfInBounds a (.own v) }

def newCell (m : Memory) (v : Value) : Address × Memory :=
  (m.cells.size, { m with cells := m.cells.push (.own v) })

/-- Adds an open cell in its order. -/
def insertOpen (i : Nat) (a : Address) : List (Nat × Address) → List (Nat × Address)
  | [] => [(i, a)]
  | (j, b) :: rest => if j < i then (i, a) :: (j, b) :: rest else (j, b) :: insertOpen i a rest

/-- The cell of a variable on the stack. -/
def capture (m : Memory) (i : Nat) : Address × Memory :=
  match m.openCells.lookup i with
  | some a => (a, m)
  | none =>
    let a := m.cells.size
    (a, { m with cells := m.cells.push (.onStack i), openCells := insertOpen i a m.openCells })

/-- Gives the open cells from a place on the values that they have there. -/
def closed (stack : Array Value) (cells : Array Cell) : List (Nat × Address) → Array Cell
  | [] => cells
  | (i, a) :: rest => closed stack (cells.setIfInBounds a (.own (stack.getD i .nil))) rest

/-- Ends the variables on the stack from a place on. -/
def closeFrom (m : Memory) (i : Nat) : Memory :=
  match m.openCells with
  | [] => m
  | (j, _) :: _ =>
    if j < i then m
    else
      let (ending, others) := m.openCells.span fun (j, _) => i ≤ j
      { m with cells := closed m.stack m.cells ending, openCells := others }

/-! ### Calls that have not ended -/

def activate (m : Memory) (a : Activation) : Memory := { m with activations := a :: m.activations }

def suspend (m : Memory) (f : Frame) : Memory := m.activate (.function f)

/-- Where the call stands that is so many calls further out, as messages start with it; nothing for a
function that has no code. -/
def position (m : Memory) (level : Nat) : String :=
  match m.activations[level]? with
  | some (.function f) => f.position
  | _ => ""

/-! ### Raised values -/

/-- The text of bytes; each piece that is no UTF-8 is shown as one sign. `fuel` bounds the pieces. -/
def shownFrom : Nat → Bytes → String
  | 0, _ => ""
  | fuel + 1, bytes =>
    match Text.defect? bytes with
    | none => (Text.ofUtf8? bytes).getD ""
    | some d =>
      let size := d.size?.getD bytes.length
      (Text.ofUtf8? (bytes.take d.index)).getD "" ++ "\uFFFD" ++ shownFrom fuel (bytes.drop (d.index + size))

def shown (bytes : Bytes) : String := shownFrom (bytes.length + 1) bytes

/-- The text of a value. What is known by its address alone shows it. -/
def textOf (v : Value) : Bytes :=
  let addressed (a : Address) : Bytes :=
    Text.utf8 (v.sortName ++ ": 0x" ++ String.ofList (Nat.toDigits 16 a))
  match v with
  | .nil => Text.utf8 "nil"
  | .boolean b => Text.utf8 (if b then "true" else "false")
  | .table a => addressed a
  | .function a => addressed a
  | .thread a => addressed a
  | .fault a => addressed a
  | v => v.string?.getD []

/-- What a raised value means to the program that runs the configuration. A message ends at the first zero
byte. -/
def complaint (m : Memory) (v : Value) : Complaint :=
  match v with
  | .fault a =>
    match m.faults[a]? with
    | some f => .fault f
    | none => .raised ""
  | v => .raised (shown ((textOf v).takeWhile (· ≠ 0)))

end Memory

end Provisioning.Config
