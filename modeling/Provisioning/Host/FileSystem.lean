import Provisioning.Host.Path
import Provisioning.Text.Ascii

/-! The host's file system as a value: what lies at which location, how a path text leads to a
location, and the operations that a build needs, each with its error. -/

namespace Provisioning.Host

/-- Why an operation on the host fails. -/
inductive IoError where
  | notFound
  | alreadyExists
  | notDirectory
  | isDirectory
  | nameTooLong
  | tooManyLinks
  | nulInPath
  | notUtf8
  | diskFull
deriving DecidableEq, Repr

def IoError.message : IoError → String
  | .notFound => "No such file or directory (os error 2)"
  | .alreadyExists => "File exists (os error 17)"
  | .notDirectory => "Not a directory (os error 20)"
  | .isDirectory => "Is a directory (os error 21)"
  | .nameTooLong => "File name too long (os error 36)"
  | .tooManyLinks => "Too many levels of symbolic links (os error 40)"
  | .nulInPath => "file name contained an unexpected NUL byte"
  | .notUtf8 => "stream did not contain valid UTF-8"
  | .diskFull => "disk full"

/-- The names on the way from the root. -/
abbrev Location := List String

inductive Entry where
  | file (content : List UInt8)
  | link (target : String)
  | directory
deriving DecidableEq, Repr

structure FileSystem where
  entries : List (Location × Entry)
deriving Repr

namespace FileSystem

def empty : FileSystem := ⟨[]⟩

/-- The entry at a location; the root is a directory. -/
def entry? (fs : FileSystem) (loc : Location) : Option Entry :=
  if loc = [] then some .directory else fs.entries.lookup loc

/-- Puts an entry at a location in place of the one there. -/
def put (fs : FileSystem) (loc : Location) (e : Entry) : FileSystem :=
  ⟨(loc, e) :: fs.entries.filter (·.1 ≠ loc)⟩

def erase (fs : FileSystem) (loc : Location) : FileSystem :=
  ⟨fs.entries.filter (·.1 ≠ loc)⟩

/-- The entries right below a location, by name. -/
def children (fs : FileSystem) (loc : Location) : List (String × Entry) :=
  fs.entries.filterMap fun (l, e) =>
    match l.getLast? with
    | some name => if l.dropLast = loc then some (name, e) else none
    | none => none

/-! ### From a path to a location -/

/-- One step of a path. -/
inductive Step where
  | stay
  | up
  | into (name : String)
deriving DecidableEq, Repr

/-- The longest name of an entry and the longest path, in bytes, and the number of links that one
look-up follows. -/
def maxName : Nat := 255
def maxPath : Nat := 4095
def maxLinks : Nat := 40

/-- The steps of a path text. A slash at the end asks for a directory, as a dot does. -/
def steps (path : String) : List Step :=
  let parts := Text.splitOn '/' path.toList
  let named := parts.filterMap fun part =>
    if part = [] then none
    else if part = ['.'] then some .stay
    else if part = ['.', '.'] then some .up
    else some (.into (String.ofList part))
  if parts.getLast? = some [] ∧ named ≠ [] then named ++ [.stay] else named

/-- Where a path leads, and what lies there. -/
structure Place where
  location : Location
  entry : Option Entry
deriving Repr

/-- Takes the steps from the directory `dir`. A link in the middle is followed, a link at the end
when `follow` is set; `links` bounds how many. -/
def walk (fs : FileSystem) (follow : Bool) (links : Nat) (dir : Location) :
    List Step → Except IoError Place
  | [] => .ok ⟨dir, fs.entry? dir⟩
  | .stay :: rest => walk fs follow links dir rest
  | .up :: rest => walk fs follow links dir.dropLast rest
  | .into name :: rest =>
    if maxName < name.utf8ByteSize then .error .nameTooLong
    else
      match fs.entry? (dir ++ [name]) with
      | none => if rest = [] then .ok ⟨dir ++ [name], none⟩ else .error .notFound
      | some .directory => walk fs follow links (dir ++ [name]) rest
      | some (.file content) =>
        if rest = [] then .ok ⟨dir ++ [name], some (.file content)⟩ else .error .notDirectory
      | some (.link target) =>
        if rest = [] ∧ !follow then .ok ⟨dir ++ [name], some (.link target)⟩
        else
          match links with
          | 0 => .error .tooManyLinks
          | links + 1 =>
            if target.isEmpty then .error .notFound
            else walk fs follow links (if Path.isAbsolute target then [] else dir)
              (steps target ++ rest)
termination_by rest => (links, rest.length)

end FileSystem

/-- What a build sees of the machine that it runs on. -/
structure Machine where
  files : FileSystem
  workingDirectory : Location
  home : Option String
deriving Repr

namespace Machine

open FileSystem

/-- Where steps lead from where a path starts. -/
def lead (m : Machine) (follow : Bool) (path : String) (steps : List Step) : Except IoError Place :=
  if path.toList.contains '\x00' then .error .nulInPath
  else if path.isEmpty then .error .notFound
  else m.files.walk follow maxLinks (if Path.isAbsolute path then [] else m.workingDirectory) steps

/-- A path text that is not too long. -/
def checkLength (path : String) : Except IoError Unit :=
  if maxPath < path.utf8ByteSize && !path.toList.contains '\x00' then .error .nameTooLong else .ok ()

/-- The place of a path text, seen from the working directory. -/
def locate (m : Machine) (follow : Bool) (path : String) : Except IoError Place := do
  checkLength path
  m.lead follow path (steps path)

/-- What lies at a path, links followed. -/
def find (m : Machine) (path : String) : Except IoError (Location × Entry) :=
  match m.locate true path with
  | .error e => .error e
  | .ok ⟨_, none⟩ => .error .notFound
  | .ok ⟨loc, some e⟩ => .ok (loc, e)

/-- Something lies at the path. A path that cannot be followed counts as empty. -/
def pathExists (m : Machine) (path : String) : Bool :=
  match m.find path with
  | .ok _ => true
  | .error _ => false

def isDirectory (m : Machine) (path : String) : Bool :=
  match m.find path with
  | .ok (_, .directory) => true
  | _ => false

/-- The absolute path of a location. -/
def pathOf (loc : Location) : String := "/" ++ "/".intercalate loc

/-- The absolute path of what lies at a path, without links. A path text of any length is followed. -/
def canonicalPath (m : Machine) (path : String) : Except IoError String := do
  match ← m.lead true path (steps path) with
  | ⟨_, none⟩ => .error .notFound
  | ⟨loc, some _⟩ =>
    checkLength (pathOf loc)
    return pathOf loc

/-- The text of a file. -/
def readText (m : Machine) (path : String) : Except IoError String :=
  match m.find path with
  | .error e => .error e
  | .ok (_, .file content) =>
    match Text.ofUtf8? content with
    | some text => .ok text
    | none => .error .notUtf8
  | .ok _ => .error .isDirectory

/-- The entries of a directory, by name. -/
def list (m : Machine) (path : String) : Except IoError (List (String × Entry)) :=
  match m.find path with
  | .error e => .error e
  | .ok (loc, .directory) => .ok (m.files.children loc)
  | .ok _ => .error .notDirectory

/-- The path without the slashes at its end, unless it is all slashes. -/
def withoutEndSlashes (path : String) : String :=
  let short := Path.dropEndSlashes path
  if short.isEmpty then path else short

/-- Makes one directory. A slash at the end changes nothing. -/
def makeDirectory (m : Machine) (path : String) : Except IoError Machine := do
  checkLength path
  match ← m.lead false path (steps (withoutEndSlashes path)) with
  | ⟨_, some _⟩ => .error .alreadyExists
  | ⟨loc, none⟩ => .ok { m with files := m.files.put loc .directory }

/-- A path and the directories it lies in, from the inside out, without the empty path. -/
def ancestors (path : String) : List String := go path.length path
where
  go : Nat → String → List String
    | 0, _ => []
    | fuel + 1, path =>
      if path.isEmpty then []
      else path :: ((Path.parent? path).elim [] (go fuel))

/-- Makes the first directory of the list, and the others first where they are missing. A directory
that is there already is no error. What was made before an error stays. -/
def makeAll (m : Machine) : List String → Except IoError Unit × Machine
  | [] => (.ok (), m)
  | path :: outer =>
    match m.makeDirectory path with
    | .ok m => (.ok (), m)
    | .error .notFound =>
      match makeAll m outer with
      | (.error e, m) => (.error e, m)
      | (.ok (), m) =>
        match m.makeDirectory path with
        | .ok m => (.ok (), m)
        | .error e => if m.isDirectory path then (.ok (), m) else (.error e, m)
    | .error e => if m.isDirectory path then (.ok (), m) else (.error e, m)

/-- Makes a directory and those it lies in. -/
def makeDirectories (m : Machine) (path : String) : Except IoError Unit × Machine :=
  m.makeAll (ancestors path)

/-- A slash at the end of a path. -/
def endsWithSlash (path : String) : Bool := path.toList.getLast? = some '/'

/-- The steps up to the directory of the last name, if a name comes last. -/
def outerSteps (steps : List Step) : List Step :=
  match steps.getLast? with
  | some (.into _) => steps.dropLast ++ [.stay]
  | _ => steps

/-- Creates or replaces a file. A path with a slash at its end can name no file; its last name is not
looked at. -/
def writeFile (m : Machine) (path : String) (content : List UInt8) : Except IoError Machine := do
  if endsWithSlash path then
    checkLength path
    let _ ← m.lead true path (outerSteps (steps (withoutEndSlashes path)))
    .error .isDirectory
  else
    match ← m.locate true path with
    | ⟨_, some .directory⟩ => .error .isDirectory
    | ⟨loc, _⟩ => .ok { m with files := m.files.put loc (.file content) }

/-- Creates a symbolic link where nothing is. -/
def makeLink (m : Machine) (path target : String) : Except IoError Machine :=
  match m.locate false path with
  | .error e => .error e
  | .ok ⟨_, some _⟩ => .error .alreadyExists
  | .ok ⟨loc, none⟩ => .ok { m with files := m.files.put loc (.link target) }

/-- The paths of all entries below the working directory, in ascending order, a slash after each
directory. -/
def listing (m : Machine) : List String :=
  let shown := m.files.entries.filterMap fun (loc, e) =>
    if m.workingDirectory.isPrefixOf loc && loc ≠ m.workingDirectory then
      some ("/".intercalate (loc.drop m.workingDirectory.length)
        ++ if e = .directory then "/" else "")
    else none
  shown.mergeSort (· ≤ ·)

/-- The path with a leading tilde replaced by the home directory. A tilde before a name stays, and so
does every tilde when no home is known. -/
def expandTilde (home : Option String) (path : String) : String :=
  match path.toList, home with
  | ['~'], some home => Path.join home ""
  | '~' :: '/' :: rest, some home => Path.join home (String.ofList (rest.dropWhile (· == '/')))
  | _, _ => path

end Machine

end Provisioning.Host
