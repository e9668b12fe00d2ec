/-! White space and lines. A character is blank when Unicode gives it the property White_Space, and
a line ends at a line feed together with the carriage return right before it. -/

namespace Provisioning.Text

/-- The ranges of the property White_Space, in code point order. -/
def blankRanges : List (Nat × Nat) :=
  [(0x09, 0x0D), (0x20, 0x20), (0x85, 0x85), (0xA0, 0xA0), (0x1680, 0x1680), (0x2000, 0x200A),
    (0x2028, 0x2029), (0x202F, 0x202F), (0x205F, 0x205F), (0x3000, 0x3000)]

def isBlank (c : Char) : Bool :=
  blankRanges.any fun r => r.1 ≤ c.toNat && c.toNat ≤ r.2

/-- Drops the elements at the end that satisfy `p`. -/
def dropEndWhile {α : Type} (p : α → Bool) (l : List α) : List α :=
  (l.reverse.dropWhile p).reverse

def trimEnd (cs : List Char) : List Char := dropEndWhile isBlank cs

def trim (cs : List Char) : List Char := trimEnd (cs.dropWhile isBlank)

/-- The text up to the first `sep` and the text after it. -/
def splitOnce? (sep : Char) : List Char → Option (List Char × List Char)
  | [] => none
  | c :: cs => if c = sep then some ([], cs) else (splitOnce? sep cs).map fun (a, b) => (c :: a, b)

/-- The pieces between the occurrences of `sep`; never empty. -/
def splitOn (sep : Char) : List Char → List (List Char)
  | [] => [[]]
  | c :: cs =>
    if c = sep then [] :: splitOn sep cs
    else
      match splitOn sep cs with
      | [] => [[c]]
      | piece :: pieces => (c :: piece) :: pieces

/-- Drops one carriage return at the end. -/
def dropReturn (line : List Char) : List Char :=
  match line.reverse with
  | '\r' :: rest => rest.reverse
  | _ => line

/-- The lines of a text. A text that ends with a line feed has no empty line after it, and a
carriage return is part of a line end only right before a line feed. -/
def lines (cs : List Char) : List (List Char) :=
  match (splitOn '\n' cs).reverse with
  | [] => []
  | [] :: ended => (ended.map dropReturn).reverse
  | last :: ended => ((ended.map dropReturn).reverse) ++ [last]

end Provisioning.Text
