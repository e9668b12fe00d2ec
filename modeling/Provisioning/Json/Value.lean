/-! Values of JSON. The fields of an object keep their order, and a number is an integer or a float. -/

namespace Provisioning

inductive Json where
  | null
  | boolean (b : Bool)
  | integer (n : Int)
  | real (x : Float)
  | string (s : String)
  | array (items : List Json)
  | object (fields : List (String × Json))
deriving Repr, Inhabited

namespace Json

def natural (n : Nat) : Json := .integer n

/-- A text, or null. -/
def ofText? : Option String → Json
  | none => .null
  | some s => .string s

end Json

end Provisioning
