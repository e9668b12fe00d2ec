import Provisioning.Options
import Provisioning.Recipe

/-! What a configuration asks of a build, as a tree. The configuration makes one statement after another
and goes on with what it learns of each: whether it failed, and how far a block of it came. A tree is
finite, so that what holds of all trees holds of all configurations. -/

namespace Provisioning.Config

/-- A script whose blocks end with an `ω` and that ends with an `α` itself. -/
inductive Script (ω : Type) : Type → Type 1 where
  | done {α : Type} (result : α) : Script ω α
  /-- Makes a statement and goes on with the message of its failure, if it fails. -/
  | statement {α : Type} (command : Command) (next : Except String Unit → Script ω α) : Script ω α
  /-- Makes a statement with a block, and goes on with the end of the block too if the block ran. -/
  | blockStatement {α : Type} (command : Command) (block : Script ω ω)
      (next : Except String Unit → Option ω → Script ω α) : Script ω α

namespace Script

variable {ω α β : Type}

protected def bind : Script ω α → (α → Script ω β) → Script ω β
  | .done a, f => f a
  | .statement c next, f => .statement c fun r => (next r).bind f
  | .blockStatement c block next, f => .blockStatement c block fun r w => (next r w).bind f

instance : Monad (Script ω) where
  pure := .done
  bind := Script.bind

/-- Repeats a step until it gives a result, `bound` times at most; then `give` ends it. -/
def repeatFrom {σ : Type} (step : σ → Script ω (σ ⊕ β)) (give : σ → Script ω β) :
    Nat → σ → Script ω β
  | 0, s => give s
  | bound + 1, s =>
    match step s with
    | .done (.inl s) => repeatFrom step give bound s
    | .done (.inr b) => .done b
    | other => other.bind fun
      | .inl s => repeatFrom step give bound s
      | .inr b => .done b

/-! ### Running -/

/-- The build that lies in a cell while the build of the cell is out. -/
def standIn : Build :=
  .start Options.defaults.platform ⟨Options.defaults.cacheHost, Options.defaults.cacheGuest⟩

/-- What statements share: the build, as long as none of them works on it, and the first failure among
them. -/
structure Cell where
  build : Build
  failure : Option Failure
deriving Repr

namespace Cell

def take (c : Cell) : Build × Cell := (c.build, { c with build := standIn })

def put (c : Cell) (b : Build) : Cell := { c with build := b }

/-- Keeps the failure that is known already. -/
def note (c : Cell) (r : Except Failure Unit) : Cell :=
  match c.failure, r with
  | none, .error e => { c with failure := some e }
  | _, _ => c

end Cell

/-- Where statements are made. -/
structure Stage where
  machine : Host.Machine
  cell : Cell
deriving Repr

namespace Stage

def start (s : Site) : Stage := ⟨s.machine, ⟨s.build, none⟩⟩

def site (s : Stage) : Site := ⟨s.cell.build, s.machine⟩

def failure (s : Stage) : Option Failure := s.cell.failure

end Stage

/-- What a statement's action may change beside the site: the cell, and the end of the statement's
block. -/
abbrev Progress (ω : Type) := Cell × Option ω

/-- A block as a recipe sees it: the recipe's build lies in the cell while the block plays. `report` tells
of the end of the block whether the block failed. -/
def blockAction (report : ω → Except String Unit) (play : Stage → ω × Stage) :
    Nested (Progress ω) Unit :=
  ExceptT.mk fun (site, (cell, _)) =>
    let (w, stage) := play ⟨site.machine, cell.put site.build⟩
    let (build, cell) := stage.cell.take
    ((report w).mapError .block, (⟨build, stage.machine⟩, (cell, some w)))

/-- Makes a statement with the build of the cell. Gives its outcome and the end of its block, if the block
ran. -/
def makeStatement (r : Registry Recipe) (c : Command) (block : Option (Nested (Progress ω) Unit))
    (s : Stage) : (Except Failure Unit × Option ω) × Stage :=
  let (build, cell) := s.cell.take
  let (outcome, (site, (cell, w))) := (r.dispatch c block).runOn (⟨build, s.machine⟩, (cell, none))
  ((outcome, w), ⟨site.machine, (cell.put site.build).note outcome⟩)

/-- Runs a script against a registry. -/
def run (r : Registry Recipe) (report : ω → Except String Unit) :
    {α : Type} → Script ω α → Stage → α × Stage
  | _, .done a, s => (a, s)
  | _, .statement c next, s =>
    let ((outcome, _), s) := makeStatement (ω := ω) r c none s
    run r report (next (outcome.mapError Failure.message)) s
  | _, .blockStatement c block next, s =>
    let ((outcome, w), s) := makeStatement r c (some (blockAction report (run r report block))) s
    run r report (next (outcome.mapError Failure.message) w) s

end Script

end Provisioning.Config
