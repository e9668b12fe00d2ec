import Provisioning.Build
import Provisioning.Argument
import Provisioning.Registry

/-! What recipes do to a build and to the host, step by step, with the failures that end a build. What was
done before a failure stays done. -/

namespace Provisioning

/-- Any failure of a statement. -/
inductive Failure where
  | dispatch (cause : DispatchError)
  | argument (cause : ArgumentError)
  | createDirectory (path : String) (cause : Host.IoError)
  | boundGuest (guest : String)
  /-- A nested block failed, with the message of its own error. -/
  | block (message : String)
deriving DecidableEq, Repr

def Failure.message : Failure → String
  | .dispatch e => e.message
  | .argument e => e.message
  | .createDirectory path e => "failed to create directory " ++ path ++ ": " ++ e.message
  | .boundGuest guest => "guest path " ++ guest ++ " is already bound by a synced folder"
  | .block message => "in nested block: " ++ message

/-- What a statement can change: the build and the host. -/
structure Site where
  build : Build
  machine : Host.Machine
deriving Repr

namespace Site

/-- The site with a change of its build in sight of the host. -/
def change (s : Site) (f : Host.Machine → Build → Build) : Site :=
  { s with build := f s.machine s.build }

def enter (s : Site) (directory : String) : Site := { s with build := s.build.enter directory }

def leaveTo (s : Site) (depth : Nat) : Site := { s with build := s.build.leaveTo depth }

end Site

/-! ### Steps -/

/-- A step of a recipe that gives nothing. -/
inductive Step where
  | add (directive : Directive)
  | run (privileged : Bool) (code : String)
  | runIn (directory : Option String) (code : String)
  | install (installation : Installation)
  /-- Refuses a guest path that a synced folder binds. -/
  | requireUnbound (guest : String)
  /-- Makes the directory that a path of the host names, a tilde expanded, unless something is there. -/
  | ensureDirectory (path : String)
deriving DecidableEq, Repr

def Step.perform (s : Site) : Step → Except Failure Unit × Site
  | .add d => (.ok (), s.change fun _ b => b.add d)
  | .run privileged code => (.ok (), s.change fun _ b => b.emit privileged code)
  | .runIn directory code => (.ok (), s.change fun _ b => b.runIn directory code)
  | .install i => (.ok (), s.change fun m b => b.install m i)
  | .requireUnbound guest =>
    if s.build.session.bindsGuest guest then (.error (.boundGuest guest), s) else (.ok (), s)
  | .ensureDirectory path =>
    let path := Host.Machine.expandTilde s.machine.home path
    if s.machine.pathExists path then (.ok (), s)
    else
      let (r, machine) := s.machine.makeDirectories path
      (r.mapError (.createDirectory path), { s with machine })

/-- The steps of a recipe up to a result or a failure. -/
inductive Provision (α : Type) where
  | done (result : α)
  | fail (cause : Failure)
  | step (first : Step) (next : Provision α)
  /-- Asks for a download and goes on with the file's path in the guest and what the request found. -/
  | request (url file : String) (next : String × FetchStatus → Provision α)

namespace Provision

variable {α β : Type}

protected def bind : Provision α → (α → Provision β) → Provision β
  | .done a, f => f a
  | .fail e, _ => .fail e
  | .step first next, f => .step first (next.bind f)
  | .request url file next, f => .request url file fun answer => (next answer).bind f

instance : Monad Provision where
  pure := .done
  bind := Provision.bind

/-- The outcome of the steps and the site after them. -/
def perform : Provision α → Site → Except Failure α × Site
  | .done a, s => (.ok a, s)
  | .fail e, s => (.error e, s)
  | .step first next, s =>
    match first.perform s with
    | (.ok (), s) => next.perform s
    | (.error e, s) => (.error e, s)
  | .request url file next, s =>
    let (status, build) := s.build.fetch s.machine url file
    (next (s.build.guestFile url file, status)).perform { s with build }

def ofArguments : Except ArgumentError α → Provision α
  | .ok a => .done a
  | .error e => .fail (.argument e)

def add (d : Directive) : Provision Unit := .step (.add d) (.done ())

def run (code : String) : Provision Unit := .step (.run false code) (.done ())

def runPrivileged (code : String) : Provision Unit := .step (.run true code) (.done ())

def runIn (directory : Option String) (code : String) : Provision Unit :=
  .step (.runIn directory code) (.done ())

def banner (message : String) : Provision Unit := run (Shell.banner message)

def copyFile (host guest : String) : Provision Unit := add (.fileCopy host guest)

def fetch (url file : String) : Provision (String × FetchStatus) := .request url file .done

def install (i : Installation) : Provision Unit := .step (.install i) (.done ())

def requireUnbound (guest : String) : Provision Unit := .step (.requireUnbound guest) (.done ())

def ensureDirectory (path : String) : Provision Unit := .step (.ensureDirectory path) (.done ())

end Provision

/-! ### Actions -/

/-- An action on a state of type `σ` that keeps the state when it fails. -/
abbrev Action (σ ε α : Type) := ExceptT ε (StateM σ) α

namespace Action

variable {σ ε α : Type}

/-- The outcome and the state afterwards. -/
def runOn (a : Action σ ε α) (s : σ) : Except ε α × σ := a.run.run s

/-- The action with its failure as its outcome. -/
def attempt {δ : Type} (a : Action σ ε α) : Action σ δ (Except ε α) :=
  ExceptT.mk fun s =>
    let (r, s) := a.runOn s
    (.ok r, s)

end Action

variable {τ α : Type}

/-- An action of whatever runs blocks: beside the site it may change a state of its own. -/
abbrev Nested (τ : Type) (α : Type) := Action (Site × τ) Failure α

namespace Nested

/-- The steps on the site alone. -/
def ofProvision (p : Provision α) : Nested τ α :=
  ExceptT.mk fun (s, t) =>
    let (r, s) := p.perform s
    (r, (s, t))

/-- Runs the block with `directory` open. The directories are those from before afterwards, whether the
block succeeds or fails. -/
def inDirectory (directory : String) (block : Nested τ Unit) : Nested τ Unit :=
  ExceptT.mk fun (s, t) =>
    let (r, (s', t')) := block.runOn (s.enter directory, t)
    (r, (s'.leaveTo s.build.depth, t'))

end Nested

end Provisioning
