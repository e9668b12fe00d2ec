import Provisioning.Recipe.Shipped

/-! Operations on a build as data: what recipes are made of, statements, and blocks of further
operations. A run of operations leaves a record of each one that finished, those of a block before the
operation that holds the block. -/

namespace Provisioning

inductive Operation where
  | run (code : String)
  | runPrivileged (code : String)
  | banner (message : String)
  | copyFile (host guest : String)
  | add (directive : Directive)
  | fetch (url file : String)
  | installMounted (url label : String) (package : Shell.PackageChoice)
  | installFlat (url : String)
  | installTar (url : String)
  | installZip (url : String)
  | within (directory : String) (block : List Operation)
  | dispatch (command : Command)
  | dispatchBlock (command : Command) (block : List Operation)
  | fail (message : String)
  /-- Somebody creates an empty file on the host meanwhile. -/
  | createFile (path : String)
  /-- Somebody deletes a file of the host meanwhile. -/
  | deleteFile (path : String)
deriving Repr, Inhabited

/-- What is known of an operation when it has finished. -/
structure Record where
  /-- The number of blocks around the operation. -/
  depth : Nat
  operation : Operation
  before : Site
  after : Site
  outcome : Except Failure (Option (String × FetchStatus))

namespace Record

def directory (r : Record) : String := r.after.build.currentDirectory

def size (r : Record) : Nat := r.after.build.session.size

end Record

abbrev Trace := List Record

/-- A run of operations beside its trace. -/
abbrev Traced (α : Type) := Nested Trace α

namespace Operation

/-- An action of the host that no build takes; what cannot be done is not done. -/
def onMachine (f : Host.Machine → Host.Machine) : Traced Unit :=
  modify fun (s, t) => ({ s with machine := f s.machine }, t)

def createFileOn (path : String) (m : Host.Machine) : Host.Machine :=
  let m := ((Host.Path.parent? path).elim m fun dir => (m.makeDirectories dir).2)
  match m.writeFile path [] with
  | .ok m => m
  | .error _ => m

def deleteFileOn (path : String) (m : Host.Machine) : Host.Machine :=
  match m.locate false path with
  | .ok ⟨location, some (.file _)⟩ => { m with files := m.files.erase location }
  | .ok ⟨location, some (.link _)⟩ => { m with files := m.files.erase location }
  | _ => m

/-- The steps of an operation. What somebody else does, a statement and a block have none of their own. -/
def steps : Operation → Provision (Option (String × FetchStatus))
  | .run code => alone (.run code)
  | .runPrivileged code => alone (.runPrivileged code)
  | .banner message => alone (.banner message)
  | .copyFile host guest => alone (.copyFile host guest)
  | .add directive => alone (.add directive)
  | .fetch url file => do return some (← Provision.fetch url file)
  | .installMounted url label package => alone (.install (.mounted url label package))
  | .installFlat url => alone (.install (.flat url))
  | .installTar url => alone (.install (.tar url))
  | .installZip url => alone (.install (.zip url))
  | .fail message => .fail (.block message)
  | _ => .done none
where
  alone (p : Provision Unit) : Provision (Option (String × FetchStatus)) := do
    p
    return none

mutual

/-- What an operation does. -/
def effect (depth : Nat) : Operation → Traced (Option (String × FetchStatus))
  | .within directory block => do
    Nested.inDirectory directory (performAll (depth + 1) block)
    return none
  | .dispatch command => do
    Recipe.shipped.dispatch command none
    return none
  | .dispatchBlock command block => do
    Recipe.shipped.dispatch command (some (performAll (depth + 1) block))
    return none
  | .createFile path => do
    onMachine (createFileOn path)
    return none
  | .deleteFile path => do
    onMachine (deleteFileOn path)
    return none
  | op => Nested.ofProvision op.steps

/-- Runs operations up to the first that fails, and records those that finished. -/
def performAll (depth : Nat) : List Operation → Traced Unit
  | [] => pure ()
  | op :: ops => do
    let (before, _) ← get
    let outcome ← (effect depth op).attempt
    modify fun (after, t) => (after, t ++ [⟨depth, op, before, after, outcome⟩])
    match outcome with
    | .ok _ => performAll depth ops
    | .error e => throw e

end

/-- Runs one operation outside of all blocks; gives its records and the directives that it added. -/
def perform (op : Operation) (s : Site) : (Trace × List Directive) × Site :=
  let (_, (s', trace)) := (performAll 0 [op]).runOn (s, [])
  ((trace, s'.build.session.directives.drop s.build.session.size), s')

/-- Runs operations one after another, whatever fails. -/
def performEach : List Operation → Site → List (Trace × List Directive) × Site
  | [], s => ([], s)
  | op :: ops, s =>
    let (step, s) := perform op s
    let (steps, s) := performEach ops s
    (step :: steps, s)

end Operation

end Provisioning
