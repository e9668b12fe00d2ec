import Provisioning.Config.Memory
import Provisioning.Config.Script

/-! Routines: pieces of a script that read and change a memory and may raise a value. -/

namespace Provisioning.Config

/-- Where a script of the language ends: with a value that was raised or without one, and the memory. -/
structure Ending where
  raised : Option Value
  memory : Memory

instance : Inhabited Ending := ⟨⟨none, .empty⟩⟩

/-- A block that ends with a raised value failed. -/
def Ending.report (e : Ending) : Except String Unit :=
  match e.raised with
  | none => .ok ()
  | some v => .error (e.memory.complaint v).message

/-- A piece of a script. What it did to the memory stays when it raises a value. -/
abbrev Routine (α : Type) : Type 1 := ExceptT Value (StateT Memory (Script Ending)) α

namespace Routine

variable {α β : Type}

def ofScript (f : Memory → Script Ending (Except Value α × Memory)) : Routine α :=
  ExceptT.mk f

/-- The script of a routine that starts with a memory. -/
def script (r : Routine α) (m : Memory) : Script Ending (Except Value α × Memory) := r.run m

/-- The script of a routine as a block or as a whole. -/
def ending (r : Routine Unit) (m : Memory) : Script Ending Ending :=
  (r.script m).bind fun (e, m) =>
    match e with
    | .ok () => .done ⟨none, m⟩
    | .error v => .done ⟨some v, m⟩

/-- A step of the memory. -/
def ofStep (f : Memory → α × Memory) : Routine α :=
  ofScript fun m =>
    let (a, m) := f m
    .done (.ok a, m)

def raise (v : Value) : Routine α := throw v

/-- The routine with what it raises as its result. -/
def attempt (r : Routine α) : Routine (Except Value α) :=
  ofScript fun m => (r.script m).bind fun (e, m) => .done (.ok e, m)

/-- The routine with a place as the top of the stack, after which the calls and the top are what they were
before and the places from there on are given up. -/
def enclosed (place : Nat) (r : Routine α) : Routine α :=
  ofScript fun m =>
    let activations := m.activations
    let top := m.top
    (r.script { m with top := place }).bind fun (e, m) =>
      .done (e, { m.closeFrom place with activations, top })

/-- Raises an error of the program. -/
def fault (f : Fault) : Routine α := do
  let a ← ofStep fun m => m.newFault f
  raise (.fault a)

/-- Raises an error of the language, with the position of the call that is so many calls further out. -/
def complain (level : Nat) (message : String) : Routine α := do
  raise (.text ((← get).position level ++ message))

def ofExcept (r : Except Fault α) : Routine α :=
  match r with
  | .ok a => pure a
  | .error f => fault f

/-- Makes a statement for a build. Its failure is raised as an error with the failure's message. -/
def state (c : Command) (block : Option (Routine Unit)) : Routine Unit := do
  let outcome : Except String Unit ← ofScript fun m =>
    match block with
    | none => .statement c fun r => .done (.ok r, m)
    | some b => .blockStatement c (b.ending m) fun r e => .done (.ok r, (e.map (·.memory)).getD m)
  match outcome with
  | .ok () => pure ()
  | .error message => fault (.statement message)

/-- The number of turns after which a run is given up. -/
def maxTurns : Nat := 1000000000

/-- Takes turns until one gives a result. -/
def repeatUntil {σ : Type} (s : σ) (turn : σ → Routine (σ ⊕ β)) : Routine β :=
  ofScript fun m =>
    Script.repeatFrom
      (fun (s, m) => ((turn s).script m).bind fun (e, m) =>
        match e with
        | .ok (.inl s) => .done (.inl (s, m))
        | .ok (.inr b) => .done (.inr (.ok b, m))
        | .error v => .done (.inr (.error v, m)))
      (fun (_, m) => .done (.error .nil, { m with exhausted := true }))
      maxTurns (s, m)

end Routine

end Provisioning.Config
