import Provisioning.CommandLine.Run

/-! The program on a real host. It looks at the parts of the host that a run depends on, runs on what it
has seen, and looks again where the run would make something that is there already. What the run changed
is then changed on the host. -/

namespace Provisioning.Main

open Host

def locationOf (path : String) : Location := (path.splitOn "/").filter (· ≠ "")

/-- The paths on the way to a location, and its own. -/
def waysTo (location : Location) : List String :=
  (List.range (location.length + 1)).map fun n => Machine.pathOf (location.take n)

/-- Looks at one path without links above it, and at the levels below it. -/
partial def lookAt (levels : Nat) (path : String) (fs : FileSystem) : IO FileSystem := do
  let here ← IO.currentDir
  let place := here / path
  match ← place.symlinkMetadata.toBaseIO with
  | .error _ => return fs
  | .ok data =>
    match data.type with
    | .dir =>
      let fs := if locationOf path = [] then fs else fs.put (locationOf path) .directory
      match levels, ← place.readDir.toBaseIO with
      | levels + 1, .ok children =>
        children.foldlM (fun fs child => lookAt levels (path ++ "/" ++ child.fileName) fs) fs
      | _, _ => return fs
    | .symlink =>
      match ← (IO.FS.realPath place).toBaseIO with
      | .ok target =>
        let fs := fs.put (locationOf path) (.link target.toString)
        (waysTo (locationOf target.toString)).foldlM
          (fun fs way => lookAt (if way = target.toString then levels else 0) way fs) fs
      | .error _ => return fs.put (locationOf path) (.link "")
    | _ => return fs.put (locationOf path) (.file [])

/-- Looks at a path, at what lies above it and at two levels below it. -/
def see (path : String) (m : Machine) : IO Machine := do
  let here ← IO.currentDir
  let location := (locationOf (Path.join here.toString path)).filter (· ≠ ".")
  let files ← (waysTo location).foldlM
    (fun fs way => lookAt (if way = Machine.pathOf location then 2 else 0) way fs) m.files
  let m := { m with files }
  match m.find path with
  | .ok (location, .file _) => do
    match ← (IO.FS.readBinFile (Machine.pathOf location)).toBaseIO with
    | .ok content => return { m with files := m.files.put location (.file content.data.toList) }
    | .error _ => return m
  | _ => return m

/-- What is there after a run and was not there before. -/
def made (before after : Machine) : List Location :=
  (after.files.entries.map (·.1)).filter fun location => (before.files.entry? location).isNone

/-- Runs the program, and again as long as it makes something that it only has not seen. -/
partial def settle (env : Environment) (words : List String) (m : Machine) :
    IO (CommandLine.Outcome × Machine × Machine) := do
  let (outcome, after) := CommandLine.run env words m
  let seen ← (made m after).foldlM (fun seen location => see (Machine.pathOf location) seen) m
  if (made m after).all fun location => (seen.files.entry? location).isNone then
    return (outcome, m, after)
  else settle env words seen

/-- Makes the changes of a run. -/
def keep (before after : Machine) : IO Unit :=
  after.files.entries.forM fun (location, entry) => do
    match entry with
    | .directory =>
      if (before.files.entry? location).isNone then IO.FS.createDirAll (Machine.pathOf location)
    | .file content =>
      if before.files.entry? location ≠ some entry then
        IO.FS.writeBinFile (Machine.pathOf location) ⟨content.toArray⟩
    | .link _ => pure ()

def environment : IO Environment := do
  let values ← Options.variableNames.mapM fun name => do return (name, ← IO.getEnv name)
  return values.filterMap fun (name, value) => value.map fun v => (name, v)

def start : IO Machine := do
  let here ← IO.currentDir
  see "." ⟨.empty, locationOf here.toString, ← IO.getEnv "HOME"⟩

end Provisioning.Main

open Provisioning in
def main (words : List String) : IO UInt32 := do
  let env ← Main.environment
  let m ← Main.start
  let m ← (CommandLine.sights env words m).foldlM (fun m path => Main.see path m) m
  let m ← (CommandLine.sights env words m).foldlM (fun m path => Main.see path m) m
  let (outcome, before, after) ← Main.settle env words m
  Main.keep before after
  IO.print outcome.printed
  match outcome.complaint with
  | some message => IO.eprintln ("✗ " ++ message)
  | none => pure ()
  return outcome.exitCode.toUInt32
