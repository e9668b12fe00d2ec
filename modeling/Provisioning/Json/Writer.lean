import Provisioning.Json.Value
import Provisioning.Decimal.Layout
import Provisioning.Text.Ascii

/-! The text of a JSON value in one of two layouts, on one line without blanks or with one line for each
item. Strings are escaped the same way in both. -/

namespace Provisioning.Json

/-- The characters of a string's text that stand for one of its characters. Only quotes, backslashes
and control characters are escaped. -/
def escapeChar (c : Char) : List Char :=
  if c = '\x22' then ['\\', '\x22']
  else if c = '\\' then ['\\', '\\']
  else if c = '\x08' then ['\\', 'b']
  else if c = '\x0c' then ['\\', 'f']
  else if c = '\n' then ['\\', 'n']
  else if c = '\r' then ['\\', 'r']
  else if c = '\t' then ['\\', 't']
  else if c.toNat < 0x20 then
    ['\\', 'u', '0', '0', Text.lowerHexDigit (c.toNat / 16), Text.lowerHexDigit (c.toNat % 16)]
  else [c]

def quote (s : String) : List Char :=
  '\x22' :: (s.toList.flatMap escapeChar ++ ['\x22'])

/-- What stands before an item at a depth and before the bracket that closes it, and between a key and
its value. -/
structure Layout where
  lineBreak : Nat → List Char
  colon : List Char

/-- No blanks. -/
def Layout.compact : Layout := ⟨fun _ => [], [':']⟩

/-- One line for each item, indented by two spaces for each depth. -/
def Layout.pretty : Layout := ⟨fun depth => '\n' :: List.replicate (2 * depth) ' ', [':', ' ']⟩

mutual

/-- The text of a value whose brackets close at `depth`. -/
def write (l : Layout) (depth : Nat) : Json → List Char
  | .null => "null".toList
  | .boolean true => "true".toList
  | .boolean false => "false".toList
  | .integer n => (Decimal.integerText n).toList
  | .real x => (Decimal.json x).toList
  | .string s => quote s
  | .array [] => ['[', ']']
  | .array (item :: items) =>
    '[' :: (l.lineBreak (depth + 1) ++ write l (depth + 1) item ++ writeItems l depth items
      ++ l.lineBreak depth ++ [']'])
  | .object [] => ['\x7b', '\x7d']
  | .object ((key, value) :: fields) =>
    '\x7b' :: (l.lineBreak (depth + 1) ++ quote key ++ l.colon ++ write l (depth + 1) value
      ++ writeFields l depth fields ++ l.lineBreak depth ++ ['\x7d'])

/-- The items after the first, a comma before each. -/
def writeItems (l : Layout) (depth : Nat) : List Json → List Char
  | [] => []
  | item :: items =>
    ',' :: (l.lineBreak (depth + 1) ++ write l (depth + 1) item ++ writeItems l depth items)

/-- The fields after the first, a comma before each. -/
def writeFields (l : Layout) (depth : Nat) : List (String × Json) → List Char
  | [] => []
  | (key, value) :: fields =>
    ',' :: (l.lineBreak (depth + 1) ++ quote key ++ l.colon ++ write l (depth + 1) value
      ++ writeFields l depth fields)

end

def compact (v : Json) : String := String.ofList (v.write .compact 0)

def pretty (v : Json) : String := String.ofList (v.write .pretty 0)

end Provisioning.Json
