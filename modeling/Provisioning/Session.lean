import Provisioning.Directive
import Provisioning.Digest.Sha256
import Provisioning.Json.Reader

/-! A session: the directives of one build, in the order in which they were added. -/

namespace Provisioning

structure Session where
  directives : List Directive
deriving DecidableEq, Repr

namespace Session

def empty : Session := ⟨[]⟩

/-- Nothing is ever removed or moved. -/
def push (s : Session) (d : Directive) : Session := ⟨s.directives ++ [d]⟩

def size (s : Session) : Nat := s.directives.length

def fragments (s : Session) : List Fragment := s.directives.filterMap Directive.fragment?

def bindsGuest (s : Session) (guest : String) : Bool :=
  (s.directives.filterMap Directive.syncedGuest?).contains guest

/-- The box that was selected last. -/
def box? (s : Session) : Option String := (s.directives.filterMap Directive.boxName?).getLast?

def kinds (s : Session) : List Kind := s.directives.map Directive.kind

/-- The counts with one more of a kind, which is put at the end when it has no count yet. -/
def countOne : List (Kind × Nat) → Kind → List (Kind × Nat)
  | [], k => [(k, 1)]
  | (j, n) :: rest, k => if j = k then (j, n + 1) :: rest else (j, n) :: countOne rest k

/-- How many directives of each kind there are, the kinds in the order in which they first occur. -/
def summary (s : Session) : List (Kind × Nat) := s.kinds.foldl countOne []

def toJson (s : Session) : Json := .object [("directives", .array (s.directives.map Directive.toJson))]

/-- The document that is handed over. -/
def document (s : Session) : String := s.toJson.pretty ++ "\n"

/-- The text that identifies a session. -/
def digested (s : Session) : String := s.toJson.compact

/-- Twenty hexadecimal digits that identify a session. -/
def hash (s : Session) : String :=
  String.ofList ((Digest.hexText (Digest.sha256 (Text.utf8 s.digested))).toList.take 20)

/-- A session is an object with a field for its directives, or an array of that field's value alone. -/
def ofJson? : Json → Option Session
  | .object fields => do
    match ← Directive.field? fields "directives" with
    | .array items => return ⟨← items.mapM Directive.ofJson?⟩
    | _ => none
  | .array [.array items] => do return ⟨← items.mapM Directive.ofJson?⟩
  | _ => none

/-- The session of a document. Other fields beside the directives are passed over. -/
def parse? (text : String) : Option Session :=
  (Json.readDocument? (fun key => if key = "directives" then .strict else .lenient) text).bind ofJson?

end Session

end Provisioning
