import Provisioning.Config.Globals

/-! What programs and statements do. Code is run by the machine, and what the machine asks for is done
here. Calls that do not come from code, and looks at undefined names, have levels, and the number of
levels is limited. -/

namespace Provisioning.Config.Routine

variable {α : Type}

/-! ### Levels -/

/-- The number of levels. -/
def maxLevels : Nat := 199

/-- At the brink, an error that is raised becomes the error that calls nest too deep. -/
def onBrink (brink : Bool) (r : Routine α) : Routine α :=
  if brink then do
    match ← attempt r with
    | .ok a => return a
    | .error _ => complain 0 Machine.calls
  else r

/-- Runs a piece one level further in, `left` being the number of levels that are left. -/
def within (watched : Bool) (left : Nat) (r : Nat → Routine α) : Routine α :=
  match left with
  | 0 => complain 0 Machine.calls
  | left + 1 => onBrink (watched && left == 0) (r left)

/-- The value of a global name, for this program. -/
def globalValue (r : Registry Recipe) (left : Nat) (name : Value) : Routine Value :=
  within true left fun left => do
    let v ← rawValue Memory.globals name
    if v.isNil then within true left fun _ => undefined r name else return v

/-- Sets a global name, for this program. -/
def setGlobal (left : Nat) (name v : Value) : Routine Unit :=
  within true left fun _ => setRaw Memory.globals name v

/-! ### Statements as data -/

mutual

/-- Makes a value that is written down at a position, inside of the tables `path`, the innermost first. -/
def make (p : Position) (path : List Address) : Datum → Routine Value
  | .nil => pure .nil
  | .boolean b => pure (.boolean b)
  | .integer n => pure (.integer n)
  | .number x => pure (.number x)
  | .string s => pure (.string s)
  | .list items => do
    let a ← ofStep (·.newTable .empty)
    makeItems p a (a :: path) 1 items
    return .table a
  | .table pairs => do
    let a ← ofStep (·.newTable .empty)
    makePairs p a (a :: path) pairs
    return .table a
  | .enclosing levels =>
    match path[levels]? with
    | some a => pure (.table a)
    | none => pure .nil
  | .thread => do return .thread (← ofStep (·.newThread))
  | .block statements => newFunction (.statements p.inner statements)

def makeItems (p : Position) (a : Address) (path : List Address) : Nat → List Datum → Routine Unit
  | _, [] => pure ()
  | n, d :: rest => do
    let v ← make p path d
    setRaw a (.integer (Int64.ofNat n)) v
    makeItems p a path (n + 1) rest

def makePairs (p : Position) (a : Address) (path : List Address) : List (Datum × Datum) → Routine Unit
  | [] => pure ()
  | (key, d) :: rest => do
    let key ← make p path key
    let v ← make p path d
    setRaw a key v
    makePairs p a path rest

end

def makeAll (p : Position) (data : List Datum) : Routine (List Value) := data.mapM (make p [])

/-- Records a statement that has finished, unless the statement that it was written down in is over. -/
def record (p : Position) (result : Except Value Success) : Routine Unit :=
  modify fun m =>
    if p.origin = m.finished then
      { m with outcomes := m.outcomes ++ [⟨p.depth, result.mapError m.complaint⟩] }
    else m

/-- What a statement does. -/
def effect (r : Registry Recipe) (left : Nat) (call : Caller) (p : Position) :
    Statement → Routine Success
  | .call name arguments => do
    match ← globalValue r left (← make p [] name) with
    | .function a => do
      let _ ← call true (.function a) (← makeAll p arguments)
      return .called
    | v => fault (.notCallable v.typeName)
  | .read key => do return .read (← globalValue r left (← make p [] key)).typeName
  | .assign key d => do
    let key ← make p [] key
    setGlobal left key (← make p [] d)
    return .assigned
  | .fail message => fault (.statement message)
  | .guarded s => effect r left call p s

/-- Runs one statement and records it. What a guarded statement raises goes no further. -/
def perform (r : Registry Recipe) (left : Nat) (call : Caller) (p : Position) (s : Statement) :
    Routine Unit := do
  let result ← attempt (effect r left call p s)
  record p result
  match s, result with
  | .guarded _, _ => pure ()
  | _, .ok _ => pure ()
  | _, .error v => raise v

/-- Runs statements up to the first one that raises a value. -/
def performAll (r : Registry Recipe) (left : Nat) (call : Caller) (p : Position)
    (block : List Statement) : Routine Unit :=
  block.forM (perform r left call p)

/-! ### Calls -/

/-- What a call needs to know of its surroundings. -/
structure Surroundings where
  registry : Registry Recipe
  /-- The number of levels that are left. -/
  left : Nat
  /-- Whether errors are watched. -/
  watched : Bool
  /-- Calls a value one level further in. -/
  call : Caller

namespace Surroundings

/-- The meaning of a name that nobody has defined. -/
def look (s : Surroundings) (name : Value) : Routine Value :=
  within s.watched s.left fun _ => undefined s.registry name

/-- Calls a function that has no code. -/
def outside (s : Surroundings) : Callable → List Value → Routine (List Value)
  | .closure .., _ => pure []
  | .statements position block, _ => do
    performAll s.registry s.left s.call position block
    return []
  | .subject name, values => subjectStatement s.call name values
  | .action subject name, values => statement s.call subject (some name) values
  | .builtin b, values => callBuiltin s.look s.call b values

/-- Calls a function that has no code from a place of the stack. -/
def invoke (s : Surroundings) (f : Callable) (place : Nat) (arguments : List Value) :
    Routine (List Value) :=
  enclosed (place + 2) do
    modify (·.activate .builtin)
    s.outside f arguments

/-- Does what the machine asks for until the function ends that was called from outside. -/
def run (s : Surroundings) : Routine (List Value) :=
  repeatUntil () fun _ => do
    match ← ofStep (Machine.resume (s.left == 0)) with
    | .pause => return .inl ()
    | .ended results => return .inr results
    | .failed v => raise v
    | .invoke f place arguments wanted =>
      let results ← s.invoke f place arguments
      modify (·.deliver place wanted results)
      return .inl ()
    | .lookUp name place =>
      let v ← s.look name
      modify (·.setOnStack place v)
      return .inl ()
    | .iterate place wanted =>
      let values := (← get).slice place 3
      let results ← enclosed place (s.call s.watched (values.headD .nil) values.tail)
      modify (·.deliver place (some wanted) results)
      return .inl ()

end Surroundings

/-- Calls a value on the top of the stack, one level further in. -/
def enter (r : Registry Recipe) : Nat → Caller
  | 0, _, _, _ => complain 0 Machine.calls
  | left + 1, watched, f, arguments => do
    let s : Surroundings := ⟨r, left, watched, enter r left⟩
    let place := (← get).top
    enclosed place <| onBrink (watched && left == 0) do
      match ← ofStep (Machine.start f arguments) with
      | .error message => complain 0 message
      | .ok (some (f, arguments)) => s.invoke f place arguments
      | .ok none => s.run

/-- Calls a value while no call is open. -/
def call (r : Registry Recipe) : Caller := enter r maxLevels

/-- Runs a whole program. -/
def runProgram (r : Registry Recipe) (code : Code) : Routine Unit := do
  let f ← newFunction (.closure code #[0])
  let _ ← call r true f []

/-- Runs a statement outside of all blocks, whatever it raises. Gives what finished in it. -/
def performOuter (r : Registry Recipe) (s : Statement) : Routine (List Outcome) := do
  let p : Position := ⟨(← get).finished, 0⟩
  let _ ← attempt (perform r maxLevels (call r) p s)
  ofStep fun m => (m.outcomes, { m with finished := m.finished + 1, outcomes := [] })

/-- Runs statements outside of all blocks, one after another. -/
def performEach (r : Registry Recipe) (statements : List Statement) : Routine (List (List Outcome)) :=
  statements.mapM (performOuter r)

/-- A value that is written down, as an argument. -/
def argumentOf (d : Datum) : Routine Argument := do
  let v ← make ⟨0, 0⟩ [] d
  ofExcept ((← get).convert v)

/-- Values that are written down, as arguments, and whether there is a block after them. -/
def argumentsOf (data : List Datum) : Routine (List Argument × Bool) := do
  let vs ← makeAll ⟨0, 0⟩ data
  let (arguments, block) ← ofExcept (((← get).arguments vs).run.run []).1
  return (arguments, block.isSome)

/-- The result of a routine that starts with the first memory and makes no statement. -/
def result? {α : Type} (r : Routine α) : Option (Except Complaint α) :=
  match r.script .initial with
  | .done (e, m) => some (e.mapError m.complaint)
  | _ => none

end Provisioning.Config.Routine
