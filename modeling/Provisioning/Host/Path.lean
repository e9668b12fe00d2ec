import Provisioning.Text.Blank

/-! Path texts of the host. A path is a text whose parts stand between slashes; nothing is looked up
here. -/

namespace Provisioning.Host.Path

def isAbsolute (path : String) : Bool := path.toList.head? = some '/'

/-- The path `part` seen from `base`: an absolute part stands for itself, and one slash separates the
two unless `base` is empty or ends with one. -/
def join (base part : String) : String :=
  if isAbsolute part ∨ base.isEmpty then part
  else if base.toList.getLast? = some '/' then base ++ part
  else base ++ "/" ++ part

/-- The path without the slashes at its end. -/
def dropEndSlashes (path : String) : String :=
  String.ofList (Text.dropEndWhile (· == '/') path.toList)

/-- A part that adds nothing to a path unless it comes first. -/
def isVoid (part : List Char) : Bool := part == [] || part == ['.']

/-- The parts without the void parts at the end. The first part of a relative path is void only when
it is empty. -/
def dropVoidEnd (relative : Bool) : List (List Char) → List (List Char)
  | [] => []
  | first :: rest =>
    let rest := Text.dropEndWhile isVoid rest
    if rest.isEmpty && (first == [] || (!relative && isVoid first)) then [] else first :: rest

/-- The parts of a path without its last part that is not void, or none if all are. -/
def dropLastPart? (relative : Bool) (parts : List (List Char)) : Option (List (List Char)) :=
  match (dropVoidEnd relative parts).reverse with
  | [] => none
  | _ :: before => some (dropVoidEnd relative before.reverse)

/-- The path with a slash between its parts. -/
def ofParts : List (List Char) → List Char
  | [] => []
  | [part] => part
  | part :: rest => part ++ '/' :: ofParts rest

/-- The directory that a path lies in, by its text; a root and an empty path lie in none. -/
def parent? (path : String) : Option String :=
  match path.toList with
  | '/' :: body =>
    (dropLastPart? false (Text.splitOn '/' body)).map fun l => String.ofList ('/' :: ofParts l)
  | body => (dropLastPart? true (Text.splitOn '/' body)).map fun l => String.ofList (ofParts l)

end Provisioning.Host.Path
