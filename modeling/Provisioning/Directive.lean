import Provisioning.Json.Writer

/-! The directives of a plan: what is asked of the program that applies it. -/

namespace Provisioning

/-- One script for the guest. -/
structure Fragment where
  /-- The whole text, with the lines that change the directory. -/
  text : String
  /-- Runs as the superuser. -/
  privileged : Bool
  /-- The directory that was current when the fragment was added. -/
  directory : String
deriving DecidableEq, Repr

inductive Directive where
  | box (name : String)
  | provider (driver name : String) (gui : Bool)
  | syncedFolder (host guest : String)
  | forwardedPort (guest host : UInt16)
  | fileCopy (host guest : String)
  | shell (fragment : Fragment)
deriving DecidableEq, Repr

/-- The kinds of directives. -/
inductive Kind where
  | box
  | provider
  | syncedFolder
  | forwardedPort
  | fileCopy
  | shell
deriving DecidableEq, Repr

def Kind.all : List Kind := [.box, .provider, .syncedFolder, .forwardedPort, .fileCopy, .shell]

theorem Kind.mem_all (k : Kind) : k ∈ Kind.all := by cases k <;> decide

def Kind.name : Kind → String
  | .box => "box"
  | .provider => "provider"
  | .syncedFolder => "synced_folder"
  | .forwardedPort => "forwarded_port"
  | .fileCopy => "file_copy"
  | .shell => "shell"

namespace Directive

def kind : Directive → Kind
  | .box _ => .box
  | .provider .. => .provider
  | .syncedFolder .. => .syncedFolder
  | .forwardedPort .. => .forwardedPort
  | .fileCopy .. => .fileCopy
  | .shell _ => .shell

def fragment? : Directive → Option Fragment
  | .shell f => some f
  | _ => none

/-- The guest path that a synced folder binds. -/
def syncedGuest? : Directive → Option String
  | .syncedFolder _ guest => some guest
  | _ => none

def boxName? : Directive → Option String
  | .box name => some name
  | _ => none

/-- The kind comes first. -/
def toJson (d : Directive) : Json :=
  let fields : List (String × Json) :=
    match d with
    | .box name => [("name", .string name)]
    | .provider driver name gui =>
      [("provider", .string driver), ("name", .string name), ("gui", .boolean gui)]
    | .syncedFolder host guest => [("host", .string host), ("guest", .string guest)]
    | .forwardedPort guest host => [("guest", .natural guest.toNat), ("host", .natural host.toNat)]
    | .fileCopy host guest => [("host", .string host), ("guest", .string guest)]
    | .shell f =>
      [("text", .string f.text), ("privileged", .boolean f.privileged),
        ("directory", .string f.directory)]
  .object (("kind", .string d.kind.name) :: fields)

/-! ### Reading -/

/-- The names of the fields of a kind, in the order in which they are written. -/
def fieldNames : Kind → List String
  | .box => ["name"]
  | .provider => ["provider", "name", "gui"]
  | .syncedFolder => ["host", "guest"]
  | .forwardedPort => ["guest", "host"]
  | .fileCopy => ["host", "guest"]
  | .shell => ["text", "privileged", "directory"]

def text? : Json → Option String
  | .string s => some s
  | _ => none

def flag? : Json → Option Bool
  | .boolean b => some b
  | _ => none

def port? : Json → Option UInt16
  | .integer n => if 0 ≤ n ∧ n < 65536 then some (UInt16.ofNat n.toNat) else none
  | _ => none

/-- The directive of a kind, from the values of its fields. -/
def ofValues? : Kind → List Json → Option Directive
  | .box, [name] => do return .box (← text? name)
  | .provider, [driver, name, gui] =>
    do return .provider (← text? driver) (← text? name) (← flag? gui)
  | .syncedFolder, [host, guest] => do return .syncedFolder (← text? host) (← text? guest)
  | .forwardedPort, [guest, host] => do return .forwardedPort (← port? guest) (← port? host)
  | .fileCopy, [host, guest] => do return .fileCopy (← text? host) (← text? guest)
  | .shell, [text, privileged, directory] =>
    do return .shell ⟨← text? text, ← flag? privileged, ← text? directory⟩
  | _, _ => none

/-- The value of a field that occurs exactly once. -/
def field? (fields : List (String × Json)) (name : String) : Option Json :=
  match fields.filter (·.1 = name) with
  | [(_, v)] => some v
  | _ => none

def kind? (v : Json) : Option Kind :=
  match v with
  | .string s => Kind.all.find? (·.name = s)
  | _ => none

/-- A directive is an object with its kind and the fields of that kind, in any order and among others,
or an array of its kind and the values of the fields. -/
def ofJson? : Json → Option Directive
  | .object fields => do
    let kind ← kind? (← field? fields "kind")
    ofValues? kind (← (fieldNames kind).mapM (field? fields))
  | .array (tag :: values) => do ofValues? (← kind? tag) values
  | _ => none

end Directive

end Provisioning
