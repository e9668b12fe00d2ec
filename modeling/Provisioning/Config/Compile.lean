import Provisioning.Config.Code

/-! The code of a program. An expression is turned into code in one pass; until its value is needed
somewhere, it is known only where the value is held. A variable is held in its own register, so that an
operand which is a variable is read when the operator is applied and not when the operand is reached. A
function has a limited number of registers and of variables. -/

namespace Provisioning.Config

/-! ### Constants -/

namespace Expression

/-- A constant that a computation comes to, unless it is a float that is zero or no number. -/
def settled? : Option Value → Option Value
  | some (.number x) => if x == 0.0 || x.isNaN then none else some (.number x)
  | v => v

def isNumeral : Value → Bool
  | .integer _ => true
  | .number _ => true
  | _ => false

/-- The value of an expression that is known without running it. -/
def constant? : Expression → Option Value
  | .constant v => some v
  | .group e => constant? e
  | .unary .not e _ => (constant? e).map fun v => .boolean !v.truth
  | .unary .negate e _ =>
    match constant? e with
    | some v => if isNumeral v then settled? v.negated? else none
    | none => none
  | .binary (.arithmetic op) e f _ =>
    match constant? e, constant? f with
    | some v, some w => if isNumeral v && isNumeral w then settled? (op.result? v w) else none
    | _, _ => none
  | .and e f =>
    match constant? e with
    | some v => if v.truth then constant? f else none
    | none => none
  | .or e f =>
    match constant? e with
    | some v => if v.truth then none else constant? f
    | none => none
  | _ => none

/-- The truth of an expression, if it is known. -/
def truth? (e : Expression) : Option Bool := (constant? e).map Value.truth

/-- Whether the value of an expression is found by jumps. -/
def branches : Expression → Bool
  | .and e f => if truth? e = some true then branches f else true
  | .or e f => if truth? e = some false then branches f else true
  | .binary (.comparison _) .. => true
  | .unary .not e _ => (constant? e).isNone && branches e
  | .group e => branches e
  | _ => false

/-- Whether a constant fits into a comparison by order: an integer, or a float that equals one, of eight
bits. -/
def fitsOrder (v : Value) : Bool :=
  let fits (n : Int64) : Bool := -127 ≤ n.toInt && n.toInt ≤ 128
  match v with
  | .integer n => fits n
  | .number x => (wholeNumber? x).any fits
  | _ => false

/-- Whether a constant is a key of its own in an instruction: a short string, or a small integer. -/
def fitsKey (v : Value) : Bool :=
  match v with
  | .string s => s.length ≤ 40
  | .integer n => 0 ≤ n.toInt && n.toInt ≤ 255
  | _ => false

end Expression

/-! ### Functions that are being compiled -/

/-- A block of a function: the number of variables at its start, whether a function captured one of its
variables, and whether it is inside a loop ahead an iterator. -/
structure Block where
  start : Nat
  captured : Bool
  inEach : Bool

/-- A function that is being compiled. -/
structure Scope where
  source : String
  instructions : Array Instruction
  lines : Array Nat
  functions : Array Code
  captures : Array (String × Capture)
  /-- The variables, the last one first. A variable's register is the number of those before it. -/
  locals : List String
  /-- The first register that holds nothing. -/
  free : Nat
  /-- The number of registers so far. -/
  registers : Nat
  blocks : List Block
  /-- The number of instructions at the last place to which a jump was directed. -/
  lastTarget : Nat

namespace Scope

def empty (source : String) (captures : Array (String × Capture)) : Scope :=
  ⟨source, #[], #[], #[], captures, [], 0, 2, [⟨0, false, false⟩], 0⟩

def active (s : Scope) : Nat := s.locals.length

def register? (s : Scope) (name : String) : Option Nat :=
  (s.locals.findIdx? (· = name)).map fun i => s.active - 1 - i

def capture? (s : Scope) (name : String) : Option Nat := s.captures.findIdx? (·.1 = name)

/-- Marks the block of a variable as captured from. -/
def markCaptured (s : Scope) (r : Nat) : Scope :=
  let rec mark : List Block → List Block
    | [] => []
    | b :: rest => if b.start ≤ r then { b with captured := true } :: rest else b :: mark rest
  { s with blocks := mark s.blocks }

def toCode (s : Scope) (parameters : Nat) : Code :=
  ⟨s.source, parameters, s.registers, s.instructions, s.lines, s.captures.map (·.2), s.functions⟩

end Scope

/-- The limits of a function. -/
def maxVariables : Nat := 200
def maxRegisters : Nat := 255
def maxCaptures : Nat := 255

/-- Finds a variable from inside a function. The functions in between capture it. Nothing comes out if one
of them captures too many. -/
def resolve (name : String) : Scope → List Scope → Option (Option Capture × Scope × List Scope)
  | s, outer =>
    match s.register? name, s.capture? name with
    | some r, _ => some (some (.register r), s, outer)
    | none, some i => some (some (.captured i), s, outer)
    | none, none =>
      match outer with
      | [] => some (none, s, [])
      | t :: rest =>
        match resolve name t rest with
        | none => none
        | some (none, t, rest) => some (none, s, t :: rest)
        | some (some c, t, rest) =>
          if maxCaptures ≤ s.captures.size then none
          else
            let t :=
              match c with
              | .register r => t.markCaptured r
              | .captured _ => t
            let s' := { s with captures := s.captures.push (name, c) }
            some (some (.captured s.captures.size), s', t :: rest)
termination_by structural _ outer => outer

/-- A function that is being compiled, and those around it. -/
structure Compiler where
  scope : Scope
  outer : List Scope

/-- A piece of compiling. Nothing comes out if a limit is passed. -/
abbrev Compile (α : Type) := StateT Compiler Option α

namespace Compile

variable {α : Type}

def refuse : Compile α := fun _ => none

def scope : Compile Scope := do return (← get).scope

def modifyScope (f : Scope → Scope) : Compile Unit := modify fun c => { c with scope := f c.scope }

/-! ### Instructions -/

def emitAt (line : Nat) (i : Instruction) : Compile Unit :=
  modifyScope fun s => { s with instructions := s.instructions.push i, lines := s.lines.push line }

/-- Adds an instruction that cannot fail. -/
def emit (i : Instruction) : Compile Unit := emitAt 0 i

/-- The number of the next instruction. -/
def here : Compile Nat := do return (← scope).instructions.size

/-- Adds an instruction that may change later, and gives its number. -/
def emitOpen (line : Nat) (instruction : Instruction) : Compile Nat := do
  let i ← here
  emitAt line instruction
  return i

def change (i : Nat) (f : Instruction → Instruction) : Compile Unit :=
  modifyScope fun s => { s with instructions := s.instructions.modify i f }

/-- Directs jumps to the next instruction. -/
def land (jumps : List Nat) : Compile Unit := do
  let target ← here
  jumps.forM fun i => change i (·.retarget target)
  unless jumps.isEmpty do
    modifyScope fun s => { s with lastTarget := target }

/-! ### Registers -/

/-- Makes sure that there are `n` registers more than are in use. -/
def require (n : Nat) : Compile Unit := do
  let s ← scope
  let top := s.free + n
  if s.registers < top then
    if maxRegisters ≤ top then refuse else modifyScope fun s => { s with registers := top }

def reserve (n : Nat) : Compile Unit := do
  require n
  modifyScope fun s => { s with free := s.free + n }

def setFree (n : Nat) : Compile Unit := modifyScope fun s => { s with free := n }

/-- Gives up a register, unless a variable has it. -/
def release (r : Nat) : Compile Unit :=
  modifyScope fun s => if s.active ≤ r then { s with free := s.free - 1 } else s

/-! ### Values -/

/-- Where the value of an expression is held. -/
inductive Held where
  | constant (v : Value)
  | register (r : Nat)
  /-- A variable of a function around this one. -/
  | captured (i : Nat)
  /-- A value of a table that has not been read. -/
  | slot (holder : Holder) (key : Operand) (line : Nat) (about : String)
  /-- The results of a call, the first of them in a register. -/
  | call (i r : Nat)
  /-- The result of an instruction that has no register for it yet, with the instruction for each
  register. -/
  | pending (i : Nat) (make : Nat → Instruction)

instance : Inhabited Held := ⟨.constant .nil⟩

def releaseHolder : Holder → Compile Unit
  | .register r => release r
  | .captured _ => pure ()

def releaseOperand : Operand → Compile Unit
  | .register r => release r
  | .constant _ => pure ()

/-- Adds an instruction that is given the register for its result later. -/
def emitPending (line : Nat) (make : Nat → Instruction) : Compile Held := do
  return .pending (← emitOpen line (make 0)) make

/-- Reads what is not in a register yet; of a call, one result is taken. -/
def read (h : Held) : Compile Held :=
  match h with
  | .captured i => emitPending 0 fun dest => .fetch dest i
  | .slot holder key line about => do
    releaseHolder holder
    releaseOperand key
    emitPending line fun dest => .get dest holder key about
  | .call _ r => return .register r
  | h => return h

/-- Gives up the register of a value that has been read. -/
def releaseHeld : Held → Compile Unit
  | .register r => release r
  | _ => pure ()

/-- Puts a value that has been read into a register. -/
def place (h : Held) (dest : Nat) : Compile Unit :=
  match h with
  | .constant v => emit (.load dest (.constant v))
  | .register r => if r = dest then pure () else emit (.load dest (.register r))
  | .pending i make => change i fun _ => make dest
  | _ => pure ()

/-- Puts a value into the next register. -/
def toNext (h : Held) : Compile Nat := do
  let h ← read h
  releaseHeld h
  let dest := (← scope).free
  reserve 1
  place h dest
  return dest

/-- The register of a value; the next one if it has none. -/
def toAny (h : Held) : Compile Nat := do
  match ← read h with
  | .register r => return r
  | h => toNext h

/-- A value as an operand: a constant, or a register. -/
def toOperand (h : Held) : Compile Operand := do
  match ← read h with
  | .constant v => return .constant v
  | h => return .register (← toAny h)

/-- A value of a table. A key that is no short constant needs a register, and so does then a captured
table. -/
def indexed (t k : Held) (line : Nat) (about : String) : Compile Held := do
  let short : Option Value :=
    match k with
    | .constant v => if Expression.fitsKey v then some v else none
    | _ => none
  let named : Bool :=
    match short with
    | some (.string _) => true
    | _ => false
  let holder ←
    match t with
    | .captured i => if named then pure (Holder.captured i) else do pure (Holder.register (← toAny t))
    | t => do pure (Holder.register (← toAny t))
  match short with
  | some v => return .slot holder (.constant v) line about
  | none => return .slot holder (.register (← toAny k)) line about

/-! ### Variables -/

/-- The place of a variable; a name that no function around has is a value of the environment. -/
def lookup? (name : String) : Compile (Option Held) := do
  let c ← get
  match resolve name c.scope c.outer with
  | none => refuse
  | some (v, scope, outer) =>
    set (Compiler.mk scope outer)
    return v.map fun c =>
      match c with
      | .register r => .register r
      | .captured i => .captured i

/-- The name of the variable that holds the globals. -/
def environment : String := "_ENV"

/-- The value of a name: a variable, or a value of the environment. -/
def named (name : String) (line : Nat) : Compile Held := do
  match ← lookup? name with
  | some h => return h
  | none =>
    match ← lookup? environment with
    | some t => indexed t (.constant (.text name)) line ""
    | none => refuse

/-- The start of what a message tells of an operand. -/
def aboutName (kind name : String) : String := " (" ++ kind ++ " '" ++ name ++ "')"

/-- What a message tells of the value of an expression. -/
def about (c : Compiler) : Expression → String
  | .variable name _ =>
    if (c.scope.register? name).isSome then aboutName "local" name
    else if (c.scope.capture? name).isSome || c.outer.any fun s =>
        (s.register? name).isSome || (s.capture? name).isSome then aboutName "upvalue" name
    else aboutName "global" name
  | .index t (.constant (.string s)) _ =>
    let kind :=
      match t with
      | .variable name _ => if name = environment then "global" else "field"
      | _ => "field"
    aboutName kind ((Text.ofUtf8? s).getD "?")
  | .index .. => aboutName "field" "?"
  | .constant (.string s) => aboutName "constant" ((Text.ofUtf8? s).getD "?")
  | .group e => about c e
  | _ => ""

def aboutOf (e : Expression) : Compile String := do return about (← get) e

/-- Adds variables whose values are in the registers from the first one that no variable has. -/
def activate (names : List String) : Compile Unit :=
  modifyScope fun s => { s with locals := names.reverse ++ s.locals }

/-- Makes sure that there may be `n` variables more. -/
def requireVariables (n : Nat) : Compile Unit := do
  if maxVariables < (← scope).active + n then refuse

/-- Compiles a block. A jump out of it is directed behind its end. -/
def inBlock (inEach : Bool) (body : Compile Unit) : Compile Unit := do
  let s ← scope
  let outside := s.blocks.head?.any (·.inEach)
  let start := s.active
  modifyScope fun s => { s with blocks := ⟨start, inEach, inEach || outside⟩ :: s.blocks }
  body
  let captured := (← scope).blocks.head?.any (·.captured)
  modifyScope fun s =>
    { s with
      blocks := s.blocks.tail
      locals := s.locals.drop (s.active - start)
      free := start }
  if captured then emit (.close start)

/-! ### Expressions -/

/-- What the value of an expression is for. -/
inductive Demand where
  /-- To be held somewhere. -/
  | held
  /-- To be put into a register. -/
  | into (r : Nat)
  /-- To jump if it has a truth. -/
  | jump (truth : Bool)
  /-- To be put into a register and to jump if it has a truth. -/
  | keep (truth : Bool) (r : Nat)

/-- Meets a demand for a value that needs no jumps to be found. Gives where the value is held, and the
jumps. -/
def meet (d : Demand) (h : Held) : Compile (Held × List Nat) := do
  match d with
  | .held => return (h, [])
  | .into r =>
    let h ← read h
    releaseHeld h
    place h r
    return (.register r, [])
  | .jump truth =>
    match h with
    | .constant v =>
      if v.truth ≠ truth then return (h, [])
      else
        let r ← toAny h
        release r
        return (h, [← emitOpen 0 (.test r truth 0)])
    | h =>
      let r ← toAny h
      release r
      return (h, [← emitOpen 0 (.test r truth 0)])
  | .keep truth dest =>
    match h with
    | .constant v =>
      if v.truth ≠ truth then return (h, [])
      else
        let r ← toAny h
        release r
        return (h, [← emitOpen 0 (.testKeep dest r truth 0)])
    | h =>
      let r ← toAny h
      release r
      return (h, [← emitOpen 0 (.testKeep dest r truth 0)])

/-- Puts a truth into a register after jumps that were taken if it is the other one. -/
def settle (jumps : List Nat) (truth : Bool) (dest : Nat) : Compile Unit := do
  emit (.load dest (.constant (.boolean truth)))
  let ahead ← emitOpen 0 (.jump 0)
  land jumps
  emit (.load dest (.constant (.boolean !truth)))
  land [ahead]

/-- Meets a demand for a truth, from a piece that jumps if it is the given one. -/
def meetTruth (d : Demand) (jump : Bool → Compile (List Nat)) : Compile (Held × List Nat) := do
  match d with
  | .held =>
    let dest := (← scope).free
    settle (← jump false) true dest
    reserve 1
    return (.register dest, [])
  | .into dest =>
    settle (← jump false) true dest
    return (.register dest, [])
  | .jump truth => return (.register 0, ← jump truth)
  | .keep truth dest =>
    let others ← jump !truth
    emit (.load dest (.constant (.boolean truth)))
    let ahead ← emitOpen 0 (.jump 0)
    land others
    return (.register dest, [ahead])

/-- The operands of a comparison. Of two constants, one needs a register. -/
def comparisonOperands (e f : Expression) (h k : Held) (ordered : Bool) :
    Compile (Operand × Operand) := do
  let inPlace (e : Expression) : Option Value :=
    match e.constant? with
    | some v => if !ordered || Expression.fitsOrder v then some v else none
    | none => none
  match inPlace e, inPlace f with
  | _, some w => return (.register (← toAny h), .constant w)
  | some v, none => return (.constant v, .register (← toAny k))
  | none, none =>
    let r ← toAny h
    return (.register r, .register (← toAny k))

/-- Keeps a constant where it is and puts any other value into a register. -/
def early (keeps : Value → Bool) (h : Held) : Compile Held := do
  match h with
  | .constant v => if keeps v then return h else return .register (← toAny h)
  | h => return .register (← toAny h)

/-- Joins the next two registers, or adds one more to those that were joined last. -/
def joinNext (line r : Nat) (about : String) (aboutNext : String) : Compile Unit := do
  let s ← scope
  let last := s.instructions.size - 1
  match if s.lastTarget < s.instructions.size then s.instructions[last]? else none with
  | some (.join first count abouts) =>
    if first = r + 1 then change last fun _ => .join r (count + 1) (about :: abouts)
    else emitAt line (.join r 2 [about, aboutNext])
  | _ => emitAt line (.join r 2 [about, aboutNext])

/-- The number of items that a table being made collects before it puts them into the row. -/
def itemsAtOnce : Nat := 50

/-- A table that is being made: its register, the items that are collected, the items and the other keys
so far. -/
structure Making where
  table : Nat
  collected : Nat
  items : Nat
  others : Nat

/-- Moves a collected item to its register and the collected items into the row if there are enough of
them. -/
def Making.collect (m : Making) (item : Option Held) : Compile Making := do
  match item with
  | none => return m
  | some h =>
    let _ ← toNext h
    if m.collected = itemsAtOnce then
      emit (.fill m.table m.items (some itemsAtOnce))
      setFree (m.table + 1)
      return { m with items := m.items + itemsAtOnce, collected := 0 }
    else return m

/-- Puts the last items into the row; those of a call are not counted. -/
def Making.finish (m : Making) (item : Option Held) : Compile Making := do
  if m.collected = 0 then return m
  else
    match item with
    | some (.call i _) =>
      change i (·.wanting none)
      emit (.fill m.table m.items none)
      setFree (m.table + 1)
      return { m with items := m.items + m.collected - 1 }
    | item =>
      if let some h := item then
        let _ ← toNext h
      emit (.fill m.table m.items (some m.collected))
      setFree (m.table + 1)
      return { m with items := m.items + m.collected }

/-! ### Assignments -/

/-- A target that needs the value of another target, with a register that has a copy of that value. -/
def withCopy? (copy : Nat) (target : Held) : Held → Option Held
  | .slot holder key line about =>
    match target with
    | .register r =>
      let inHolder : Bool :=
        match holder with
        | .register h => h = r
        | .captured _ => false
      let inKey : Bool :=
        match key with
        | .register k => k = r
        | .constant _ => false
      let holder := if inHolder then .register copy else holder
      let key := if inKey then .register copy else key
      if inHolder || inKey then some (.slot holder key line about) else none
    | .captured i =>
      match holder with
      | .captured h => if h = i then some (.slot (.register copy) key line about) else none
      | .register _ => none
    | _ => none
  | _ => none

/-- Keeps the value of a variable that is assigned to for the targets before it that still need it. -/
def protect (target : Held) (before : List Held) : Compile (List Held) := do
  let copy := (← scope).free
  let copies := before.map (withCopy? copy target)
  if copies.any Option.isSome then
    match target with
    | .register r => emit (.load copy (.register r))
    | .captured i => emit (.fetch copy i)
    | _ => pure ()
    reserve 1
  return (before.zip copies).map fun (h, c) => c.getD h

/-- Sets a target to a value. -/
def assignTo (line : Nat) (target h : Held) : Compile Unit := do
  match target with
  | .register r =>
    let h ← read h
    releaseHeld h
    place h r
  | .captured i =>
    let r ← toAny h
    emitAt line (.store i r)
    release r
  | .slot holder key _ about =>
    let v ← toOperand h
    emitAt line (.put holder key v about)
    releaseOperand v
  | _ => pure ()

/-- Sets targets, the first of them last, to the values in the last registers. -/
def assignRegisters (line : Nat) : List Held → Compile Unit
  | [] => pure ()
  | target :: before => do
    assignTo line target (.register ((← scope).free - 1))
    assignRegisters line before

/-- As many values as are wanted, where `count` have been compiled and the last one is held. -/
def adjust (wanted count : Nat) (last : Option Held) : Compile Unit := do
  match last with
  | some (.call i _) => change i (·.wanting (some (wanted + 1 - count)))
  | last =>
    if let some h := last then
      let _ ← toNext h
    if count < wanted then emit (.clear (← scope).free (wanted - count))
  if count < wanted then reserve (wanted - count)
  else modifyScope fun s => { s with free := s.free - (count - wanted) }

/-! ### Programs -/

/-- Compiles the inside of a function, and makes the function in the next register. -/
def functionOf (parameters : List String) (body : Compile Unit) : Compile Held := do
  let c ← get
  set (Compiler.mk (.empty c.scope.source #[]) (c.scope :: c.outer))
  requireVariables parameters.length
  activate parameters
  reserve parameters.length
  body
  emit (.leave (← scope).active (some 0))
  let c ← get
  match c.outer with
  | [] => refuse
  | scope :: outer =>
    let code := c.scope.toCode parameters.length
    let i := scope.functions.size
    set (Compiler.mk { scope with functions := scope.functions.push code } outer)
    return .register (← toNext (← emitPending 0 fun dest => .function dest i))

mutual

/-- Compiles an expression for a demand. -/
def expression (d : Demand) : Expression → Compile (Held × List Nat)
  | .constant v => meet d (.constant v)
  | .variable name line => do meet d (← named name line)
  | .index t k line => do
    let about ← aboutOf t
    let (ht, _) ← expression .held t
    let ht ←
      match ht with
      | .captured i => pure (Held.captured i)
      | ht => do pure (Held.register (← toAny ht))
    let (hk, _) ← expression .held k
    meet d (← indexed ht (← read hk) line about)
  | .call callee arguments line => do
    let about ← aboutOf callee
    let (f, _) ← expression .held callee
    let base ← toNext f
    let last ← expressions arguments
    match last with
    | some (.call i _) =>
      change i (·.wanting none)
      let i ← emitOpen line (.call base none (some 1) about)
      setFree (base + 1)
      meet d (.call i base)
    | last =>
      if let some h := last then
        let _ ← toNext h
      let count := (← scope).free - (base + 1)
      let i ← emitOpen line (.call base (some count) (some 1) about)
      setFree (base + 1)
      meet d (.call i base)
  | .function parameters body => do meet d (← functionOf parameters (steps body))
  | .table fields => do
    let i ← here
    let table := (← scope).free
    emit (.create table 0 0)
    reserve 1
    let (m, item) ← fieldList ⟨table, 0, 0, 0⟩ none fields
    let m ← m.finish item
    change i fun _ => .create table m.items m.others
    meet d (.register table)
  | .unary .not e line =>
    match (Expression.unary .not e line).constant? with
    | some v => meet d (.constant v)
    | none =>
      if e.branches then
        meetTruth d fun truth => do return (← expression (.jump !truth) e).2
      else
        match d with
        | .jump truth => expression (.jump !truth) e
        | d => do
          let (h, _) ← expression .held e
          let r ← toAny h
          release r
          meet d (← emitPending line fun dest => .unary .not dest r "")
  | .unary op e line =>
    match (Expression.unary op e line).constant? with
    | some v => meet d (.constant v)
    | none => do
      let about ← aboutOf e
      let (h, _) ← expression .held e
      let r ← toAny h
      release r
      meet d (← emitPending line fun dest => .unary op dest r about)
  | .binary (.arithmetic op) e f line =>
    match (Expression.binary (.arithmetic op) e f line).constant? with
    | some v => meet d (.constant v)
    | none => do
      let aboutLeft ← aboutOf e
      let aboutRight ← aboutOf f
      let (h, _) ← expression .held e
      let h ← early Expression.isNumeral h
      let (k, _) ← expression .held f
      let k ← early Expression.isNumeral (← read k)
      let (left, right) : Operand × Operand ←
        match h, k with
        | .constant v, .register r =>
          if op = .subtract then do pure (.register (← toAny h), .register r)
          else pure (.constant v, .register r)
        | h, .constant w => do pure (.register (← toAny h), .constant w)
        | h, k => do
          let r ← toAny h
          pure (.register r, .register (← toAny k))
      releaseOperand left
      releaseOperand right
      meet d (← emitPending line fun dest => .arithmetic op dest left right aboutLeft aboutRight)
  | .binary .concat e f line => do
    let about ← aboutOf e
    let aboutNext ← aboutOf f
    let (h, _) ← expression .held e
    let r ← toNext h
    let (k, _) ← expression .held f
    let s ← toNext k
    joinNext line r about aboutNext
    release s
    meet d (.register r)
  | .binary (.comparison op) e f line =>
    meetTruth d fun truth => do
      let ordered := op ≠ .equal ∧ op ≠ .notEqual
      let (h, _) ← expression .held e
      let h ← early (fun v => !ordered || Expression.fitsOrder v) h
      let (k, _) ← expression .held f
      let k ← read k
      let swapped := op = .greater ∨ op = .greaterEqual
      let (left, right) ←
        if swapped then do
          let (right, left) ← comparisonOperands f e k h ordered
          pure (left, right)
        else comparisonOperands e f h k ordered
      releaseOperand left
      releaseOperand right
      return [← emitOpen line (.compare op left right truth 0)]
  | .and e f =>
    if e.truth? = some true then expression d f
    else
      match d with
      | .jump truth => do
        let (_, others) ← expression (.jump false) e
        let (_, jumps) ← expression (.jump truth) f
        if truth then
          land others
          return (.register 0, jumps)
        else return (.register 0, others ++ jumps)
      | .keep truth dest => do
        if truth then
          let (_, others) ← expression (.jump false) e
          let (_, jumps) ← expression (.keep truth dest) f
          land others
          return (.register dest, jumps)
        else
          let (_, others) ← expression (.keep truth dest) e
          let (_, jumps) ← expression (.keep truth dest) f
          return (.register dest, others ++ jumps)
      | .into dest => do
        let (_, jumps) ← expression (.keep false dest) e
        let _ ← expression (.into dest) f
        land jumps
        return (.register dest, [])
      | .held => do
        let dest := (← scope).free
        let (_, jumps) ← expression (.keep false dest) e
        let _ ← expression (.into dest) f
        setFree dest
        reserve 1
        land jumps
        return (.register dest, [])
  | .or e f =>
    if e.truth? = some false then expression d f
    else
      match d with
      | .jump truth => do
        let (_, others) ← expression (.jump true) e
        let (_, jumps) ← expression (.jump truth) f
        if truth then return (.register 0, others ++ jumps)
        else
          land others
          return (.register 0, jumps)
      | .keep truth dest => do
        if truth then
          let (_, others) ← expression (.keep truth dest) e
          let (_, jumps) ← expression (.keep truth dest) f
          return (.register dest, others ++ jumps)
        else
          let (_, others) ← expression (.jump true) e
          let (_, jumps) ← expression (.keep truth dest) f
          land others
          return (.register dest, jumps)
      | .into dest => do
        let (_, jumps) ← expression (.keep true dest) e
        let _ ← expression (.into dest) f
        land jumps
        return (.register dest, [])
      | .held => do
        let dest := (← scope).free
        let (_, jumps) ← expression (.keep true dest) e
        let _ ← expression (.into dest) f
        setFree dest
        reserve 1
        land jumps
        return (.register dest, [])
  | .group e =>
    if e.branches then expression d e
    else do
      let (h, _) ← expression .held e
      meet d (← read h)

/-- Puts all values of a list but the last one into registers, and tells where that one is held. -/
def expressions : List Expression → Compile (Option Held)
  | [] => return none
  | [e] => do return some (← expression .held e).1
  | e :: rest => do
    let (h, _) ← expression .held e
    let _ ← toNext h
    expressions rest

/-- Compiles the fields of a table. Tells where an item that has not been moved is held. -/
def fieldList (m : Making) (item : Option Held) : List Field → Compile (Making × Option Held)
  | [] => return (m, item)
  | .item e :: rest => do
    let m ← m.collect item
    let (h, _) ← expression .held e
    fieldList { m with collected := m.collected + 1 } (some h) rest
  | .entry k e line :: rest => do
    let m ← m.collect item
    let free := (← scope).free
    let (hk, _) ← expression .held k
    let target ← indexed (.register m.table) (← read hk) line ""
    let (h, _) ← expression .held e
    assignTo line target h
    setFree free
    fieldList { m with others := m.others + 1 } none rest

/-- Compiles the targets of an assignment, after those in reverse. -/
def targets (before : List Held) : List Expression → Compile (List Held)
  | [] => return before
  | e :: rest => do
    let (h, _) ← expression .held e
    let before ← protect h before
    targets (h :: before) rest

/-- Compiles the steps of a block. The registers of a step are free after it. -/
def steps : List Step → Compile Unit
  | [] => pure ()
  | s :: rest => do
    step s
    setFree (← scope).active
    steps rest

def step : Step → Compile Unit
  | .evaluate e => do
    match ← expression .held e with
    | (.call i _, _) => change i (·.wanting (some 0))
    | _ => pure ()
  | .declare names es => do
    requireVariables names.length
    let last ← expressions es
    adjust names.length es.length last
    activate names
  | .declareFunction name parameters body => do
    requireVariables 1
    activate [name]
    let _ ← functionOf parameters (steps body)
  | .assign places es line => do
    let places ← targets [] places
    match places with
    | [] => pure ()
    | target :: before =>
      if places.length = es.length then
        lastInto line target es
        assignRegisters line before
      else
        let last ← expressions es
        adjust places.length es.length last
        assignRegisters line places
  | .branch condition yes no => do
    let (_, jumps) ← expression (.jump false) condition
    inBlock false (steps yes)
    if no.isEmpty then land jumps
    else
      let ahead ← emitOpen 0 (.jump 0)
      land jumps
      inBlock false (steps no)
      land [ahead]
  | .loopWhile condition body => do
    let start ← here
    let (_, jumps) ← expression (.jump false) condition
    inBlock false (steps body)
    emit (.jump start)
    land jumps
  | .loopFrom name first last increment body line => inBlock false do
    requireVariables 4
    let base := (← scope).free
    let (h, _) ← expression .held first
    let _ ← toNext h
    let (h, _) ← expression .held last
    let _ ← toNext h
    match increment with
    | some e =>
      let (h, _) ← expression .held e
      let _ ← toNext h
    | none =>
      emit (.load (← scope).free (.constant (.integer 1)))
      reserve 1
    activate ["(for state)", "(for state)", "(for state)"]
    let start ← emitOpen line (.startCount base 0)
    inBlock false do
      activate [name]
      reserve 1
      inBlock false (steps body)
    let again ← here
    emitAt line (.nextCount base (start + 1))
    change start (·.retarget (again + 1))
  | .loopOver names es body line => inBlock true do
    requireVariables (4 + names.length)
    let base := (← scope).free
    let last ← expressions es
    adjust 4 es.length last
    activate ["(for state)", "(for state)", "(for state)", "(for state)"]
    require 3
    let start ← emitOpen line (.startEach base 0)
    inBlock false do
      activate names
      reserve names.length
      inBlock false (steps body)
    change start (·.retarget (← here))
    emitAt line (.callEach base names.length)
    emitAt line (.nextEach base (start + 1))
  | .block body => inBlock false (steps body)
  | .leave es => do
    let first := (← scope).active
    let last ← expressions es
    match last with
    | none => emit (.leave first (some 0))
    | some (.call i _) =>
      let inEach := (← scope).blocks.head?.any (·.inEach)
      if es.length = 1 && !inEach then change i (·.atEnd) else change i (·.wanting none)
      emit (.leave first none)
    | some h =>
      if es.length = 1 then
        let r ← toAny h
        emit (.leave r (some 1))
      else
        let _ ← toNext h
        emit (.leave first (some es.length))

/-- Sets a target to the last of as many values as there are targets; the others are put into registers.
-/
def lastInto (line : Nat) (target : Held) : List Expression → Compile Unit
  | [] => pure ()
  | [e] => do
    match target with
    | .register r =>
      let _ ← expression (.into r) e
    | target => do
      let (h, _) ← expression .held e
      assignTo line target (← read h)
  | e :: rest => do
    let (h, _) ← expression .held e
    let _ ← toNext h
    lastInto line target rest

end

end Compile

/-- The code of a program from a text with a name. It finds the globals in the only variable that it
captures. -/
def Program.code? (p : Program) (source : String) : Option Code := do
  let main : Scope := .empty source #[(Compile.environment, .register 0)]
  let body : Compile Unit := do
    Compile.steps p
    Compile.emit (.leave (← Compile.scope).active (some 0))
  let (_, c) ← body.run ⟨main, []⟩
  return c.scope.toCode 0

end Provisioning.Config
