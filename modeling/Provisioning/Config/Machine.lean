import Provisioning.Config.Memory

/-! The machine that runs code. It takes one instruction after another of the innermost function, and
stops where it needs what is outside of it: a function without code, the meaning of a name that nobody has
defined, or a call that is counted. -/

namespace Provisioning.Config

/-- Why the machine stops. -/
inductive Event where
  /-- The number of steps is used up. -/
  | pause
  /-- The function that was called from outside has ended. -/
  | ended (results : List Value)
  | failed (v : Value)
  /-- A function without code is called from a place of the stack. -/
  | invoke (f : Callable) (place : Nat) (arguments : List Value) (wanted : Option Nat)
  /-- A name that nobody has defined is looked up for a place of the stack. -/
  | lookUp (name : Value) (place : Nat)
  /-- An iterator is called from a place of the stack. -/
  | iterate (place results : Nat)

/-- What an instruction leads to. -/
inductive Turn where
  | next (f : Frame) (m : Memory)
  | halt (e : Event) (m : Memory)

/-- What the start of a call leads to. -/
inductive Opening where
  | frame (f : Frame)
  /-- A function without code, with its arguments. -/
  | outside (f : Callable) (arguments : List Value)
  | notFunction (typeName : String)
  | overflow

namespace Frame

/-- The place of a register on the stack. -/
def place (f : Frame) (r : Nat) : Nat := f.base + r

def operand (f : Frame) (m : Memory) : Operand → Value
  | .register r => m.onStack (f.base + r)
  | .constant v => v

def holder (f : Frame) (m : Memory) : Holder → Value
  | .register r => m.onStack (f.base + r)
  | .captured i => m.cell (f.captured.getD i 0)

/-- Goes on with a value in a register. -/
def give (f : Frame) (m : Memory) (r : Nat) (v : Value) : Turn := .next f (m.setOnStack (f.base + r) v)

/-- Goes on elsewhere. -/
def goTo (f : Frame) (m : Memory) (target : Nat) : Turn := .next { f with next := target } m

def stop (f : Frame) (m : Memory) (e : Event) : Turn := .halt e (m.suspend f)

/-- Raises an error of the language. -/
def fail (f : Frame) (m : Memory) (message : String) : Turn :=
  f.stop m (.failed (.text (f.position ++ message)))

end Frame

namespace Machine

/-! ### Messages -/

def cannot (action typeName about : String) : String :=
  "attempt to " ++ action ++ " a " ++ typeName ++ " value" ++ about

def calls : String := "C stack overflow"

def stackIsFull : String := "stack overflow"

def notOrdered (v w : Value) : String :=
  if v.sortName = w.sortName then "attempt to compare two " ++ v.sortName ++ " values"
  else "attempt to compare " ++ v.sortName ++ " with " ++ w.sortName

/-- Why a key is none. -/
def noKey (key : Value) : String := if key.isNil then "table index is nil" else "table index is NaN"

/-! ### Operators -/

def isString : Value → Bool
  | .string _ => true
  | _ => false

/-- The result of an operator on numbers. An operand that is a string is handed to the functions of
strings, which is a call. Such a call is refused at the brink. -/
def arithmetic (brink : Bool) (result : Option Value) (v w : Value) (aboutLeft aboutRight : String) :
    Except String Value :=
  if isString v || isString w then
    if brink then .error calls
    else result.elim (.error (cannot "perform arithmetic on" v.sortName "")) .ok
  else
    match result, v.number? with
    | some n, _ => .ok n
    | none, none => .error (cannot "perform arithmetic on" v.sortName aboutLeft)
    | none, some _ => .error (cannot "perform arithmetic on" w.sortName aboutRight)

/-- Joins values from the last one on. Of the last two, the first one has to be a string or a number
first. -/
def join : List Value → List String → Except String Bytes
  | [], _ => .ok []
  | v :: rest, about =>
    let refusal : Except String Bytes := .error (cannot "concatenate" v.sortName (about.headD ""))
    match v.string?, rest, join rest about.tail with
    | none, [_], _ => refusal
    | _, _, .error message => .error message
    | none, _, .ok _ => refusal
    | some s, _, .ok t => .ok (s ++ t)

/-! ### Calls -/

/-- The number of places that a function without code needs. -/
def outsidePlaces : Nat := 20

/-- Starts a call of the value at a place with the `count` values after it. -/
def openCall (m : Memory) (place count : Nat) (wanted : Option Nat) (entry : Bool) : Opening × Memory :=
  match m.onStack place with
  | .function a =>
    match m.functions[a]? with
    | none => (.notFunction "nil", m)
    | some (.closure code captured) =>
      let base := place + 1
      if Memory.maxStack < base + count + code.registers then (.overflow, m)
      else
        let stack := Memory.extend (base + code.registers) m.stack
        let missing := List.replicate (code.parameters - count) .nil
        (.frame ⟨code, captured, base, 0, wanted, entry⟩,
          { m with stack := Memory.write stack (base + count) missing })
    | some f =>
      if Memory.maxStack < place + 1 + count + outsidePlaces then (.overflow, m)
      else (.outside f (m.slice (place + 1) count), m)
  | v => (.notFunction v.sortName, m)

/-- The number of values after a place: a given one, or those up to the top. -/
def countAfter (m : Memory) (place : Nat) (count : Option Nat) : Nat := count.getD (m.top - (place + 1))

/-- A call by an instruction. -/
def callAt (f : Frame) (m : Memory) (place : Nat) (count wanted : Option Nat) (about : String) : Turn :=
  let count := countAfter m place count
  match openCall m place count wanted false with
  | (.frame g, m) => .next g (m.suspend f)
  | (.outside g arguments, m) => f.stop m (.invoke g place arguments wanted)
  | (.notFunction typeName, m) => f.fail m (cannot "call" typeName about)
  | (.overflow, m) => f.fail m stackIsFull

/-- A call of a function that takes the place of its caller. A function without code does not. -/
def tailCallAt (f : Frame) (m : Memory) (place : Nat) (count : Option Nat) (about : String) : Turn :=
  let count := countAfter m place count
  match openCall m place count f.wanted f.entry with
  | (.frame g, m) =>
    let m := m.closeFrom f.base
    let values := m.slice place (1 + max count g.code.parameters)
    .next { g with base := f.base } { m with stack := Memory.write m.stack (f.base - 1) values }
  | (.outside g arguments, m) => f.stop m (.invoke g place arguments none)
  | (.notFunction typeName, m) => f.fail m (cannot "call" typeName about)
  | (.overflow, m) => f.fail m stackIsFull

/-- Ends a function with values. -/
def leave (f : Frame) (m : Memory) (values : List Value) : Turn :=
  let m := m.closeFrom f.base
  if f.entry then .halt (.ended values) m
  else
    match m.activations with
    | .function caller :: rest =>
      .next caller ({ m with activations := rest }.deliver (f.base - 1) f.wanted values)
    | _ => .halt (.ended values) m

/-! ### Tables and functions -/

/-- Reads a value of a table. A string has no values. -/
def getFrom (f : Frame) (m : Memory) (dest : Nat) (t key : Value) (about : String) : Turn :=
  match t with
  | .table a =>
    let (v, m) := m.lookAt a key
    if v.isNil && a == Memory.globals then f.stop m (.lookUp key (f.place dest)) else f.give m dest v
  | .string _ => f.give m dest .nil
  | t => f.fail m (cannot "index" t.sortName about)

def putInto (f : Frame) (m : Memory) (t key v : Value) (about : String) : Turn :=
  match t with
  | .table a =>
    match Key.ofValue? key with
    | some k => .next f (m.setTable a k v)
    | none => f.fail m (noKey key)
  | t => f.fail m (cannot "index" t.sortName about)

/-- The cells of the variables that a function captures. -/
def captureAll (f : Frame) : List Capture → Array Address → Memory → Array Address × Memory
  | [], cells, m => (cells, m)
  | .register r :: rest, cells, m =>
    let (a, m) := m.capture (f.place r)
    captureAll f rest (cells.push a) m
  | .captured i :: rest, cells, m => captureAll f rest (cells.push (f.captured.getD i 0)) m

def makeFunction (f : Frame) (m : Memory) (dest i : Nat) : Turn :=
  let code := f.code.functions.getD i default
  let (captured, m) := captureAll f code.captures.toList #[] m
  let (a, m) := m.newFunction (.closure code captured)
  f.give m dest (.function a)

/-! ### Loops -/

/-- Starts a loop that counts. Its second register holds the number of turns that are left after the first
one, or the limit if the loop does not count in integers. -/
def startCount (f : Frame) (m : Memory) (first target : Nat) : Turn :=
  let r (i : Nat) : Value := m.onStack (f.place (first + i))
  match count (r 0) (r 1) (r 2) with
  | .error e => f.fail m e.message
  | .ok (.whole 0 _ _) => f.goTo m target
  | .ok (.whole (left + 1) start step) =>
    let values : List Value :=
      [.integer start, .integer (Int64.ofNat left), .integer step, .integer start]
    .next f { m with stack := Memory.write m.stack (f.place first) values }
  | .ok (.real start last step) =>
    if (if 0 < step then last < start else start < last) then f.goTo m target
    else
      let values : List Value := [.number start, .number last, .number step, .number start]
      .next f { m with stack := Memory.write m.stack (f.place first) values }

def nextCount (f : Frame) (m : Memory) (first target : Nat) : Turn :=
  let r (i : Nat) : Value := m.onStack (f.place (first + i))
  match r 0, r 1, r 2 with
  | .integer n, .integer left, .integer step =>
    if left = 0 then .next f m
    else
      let n := n + step
      let m := m.setOnStack (f.place first) (.integer n)
      let m := m.setOnStack (f.place (first + 1)) (.integer (left - 1))
      f.goTo (m.setOnStack (f.place (first + 3)) (.integer n)) target
  | .number x, .number last, .number step =>
    let x := x + step
    if (if 0 < step then x ≤ last else last ≤ x) then
      let m := m.setOnStack (f.place first) (.number x)
      f.goTo (m.setOnStack (f.place (first + 3)) (.number x)) target
    else .next f m
  | _, _, _ => .next f m

/-- Puts the iterator and its two arguments after the four registers of the loop and has it called. -/
def callEach (f : Frame) (m : Memory) (first results : Nat) : Turn :=
  let place := f.place (first + 4)
  match m.onStack (f.place first) with
  | .function _ =>
    let values := m.slice (f.place first) 3
    f.stop { m with stack := Memory.write m.stack place values } (.iterate place results)
  | v => f.fail m (cannot "call" v.sortName " (for iterator 'for iterator')")

/-! ### Steps -/

/-- Runs one instruction, the number of the next one being set already. -/
def perform (brink : Bool) (f : Frame) (m : Memory) : Instruction → Turn
  | .load dest v => f.give m dest (f.operand m v)
  | .clear first count =>
    .next f { m with stack := Memory.write m.stack (f.place first) (List.replicate count .nil) }
  | .fetch dest i => f.give m dest (m.cell (f.captured.getD i 0))
  | .store i r => .next f (m.setCell (f.captured.getD i 0) (m.onStack (f.place r)))
  | .get dest holder key about => getFrom f m dest (f.holder m holder) (f.operand m key) about
  | .put holder key v about => putInto f m (f.holder m holder) (f.operand m key) (f.operand m v) about
  | .create dest row others =>
    let (a, m) := m.newTable (.withRoom row others)
    f.give m dest (.table a)
  | .fill table start count =>
    let place := f.place table
    match m.onStack place with
    | .table a =>
      let values := m.slice (place + 1) (countAfter m place count)
      .next f (m.changeTable a fun t => t.fill start values)
    | _ => .next f m
  | .unary .not dest r _ => f.give m dest (.boolean !(m.onStack (f.place r)).truth)
  | .unary .negate dest r about =>
    let v := m.onStack (f.place r)
    match arithmetic brink v.negated? v v about about with
    | .ok n => f.give m dest n
    | .error message => f.fail m message
  | .unary .length dest r about =>
    match m.onStack (f.place r) with
    | .string s => f.give m dest (.integer (Int64.ofNat s.length))
    | .table a =>
      let (n, m) := m.measure a
      f.give m dest (.integer (Int64.ofNat n))
    | v => f.fail m (cannot "get length of" v.sortName about)
  | .arithmetic op dest left right aboutLeft aboutRight =>
    let v := f.operand m left
    let w := f.operand m right
    match arithmetic brink (op.result? v w) v w aboutLeft aboutRight with
    | .ok n => f.give m dest n
    | .error message => f.fail m message
  | .join first count about =>
    match join (m.slice (f.place first) count) about with
    | .ok s => f.give m first (.string s)
    | .error message => f.fail m message
  | .jump target => f.goTo m target
  | .test r truth target =>
    if (m.onStack (f.place r)).truth = truth then f.goTo m target else .next f m
  | .testKeep dest r truth target =>
    let v := m.onStack (f.place r)
    if v.truth = truth then f.goTo (m.setOnStack (f.place dest) v) target else .next f m
  | .compare op left right truth target =>
    let v := f.operand m left
    let w := f.operand m right
    match op.holds? v w with
    | some b => if b = truth then f.goTo m target else .next f m
    | none =>
      let swapped := op = .greater ∨ op = .greaterEqual
      f.fail m (if swapped then notOrdered w v else notOrdered v w)
  | .function dest i => makeFunction f m dest i
  | .close first => .next f (m.closeFrom (f.place first))
  | .call first arguments results about => callAt f m (f.place first) arguments results about
  | .tailCall first arguments about => tailCallAt f m (f.place first) arguments about
  | .leave first count =>
    let place := f.place first
    leave f m (m.slice place (count.getD (m.top - place)))
  | .startCount first target => startCount f m first target
  | .nextCount first target => nextCount f m first target
  | .startEach first target =>
    if (m.onStack (f.place (first + 3))).truth then
      f.fail m "variable '(for state)' got a non-closable value"
    else f.goTo m target
  | .callEach first results => callEach f m first results
  | .nextEach first target =>
    let v := m.onStack (f.place (first + 4))
    if v.isNil then .next f m else f.goTo (m.setOnStack (f.place (first + 2)) v) target

/-- Runs the next instruction of a function. -/
def step (brink : Bool) (f : Frame) (m : Memory) : Turn :=
  match f.code.instructions[f.next]? with
  | none => leave f m []
  | some i => perform brink { f with next := f.next + 1 } m i

/-- Runs steps up to a number of them. -/
def steps (brink : Bool) : Nat → Frame → Memory → Event × Memory
  | 0, f, m => (.pause, m.suspend f)
  | fuel + 1, f, m =>
    match step brink f m with
    | .next f m => steps brink fuel f m
    | .halt e m => (e, m)

/-- The number of steps after which the machine pauses. -/
def stepsAtOnce : Nat := 1000000

/-- Starts a call from outside on the top of the stack. Gives the function and its arguments if it has no
code. -/
def start (f : Value) (arguments : List Value) (m : Memory) :
    Except String (Option (Callable × List Value)) × Memory :=
  let place := m.top
  match openCall (m.deliver place none (f :: arguments)) place arguments.length none true with
  | (.frame g, m) => (.ok none, m.suspend g)
  | (.outside g arguments, m) => (.ok (some (g, arguments)), m)
  | (.notFunction typeName, m) => (.error (cannot "call" typeName ""), m)
  | (.overflow, m) => (.error stackIsFull, m)

/-- Goes on with the innermost function. -/
def resume (brink : Bool) (m : Memory) : Event × Memory :=
  match m.activations with
  | .function f :: rest => steps brink stepsAtOnce f { m with activations := rest }
  | _ => (.ended [], m)

end Machine

end Provisioning.Config
