import Provisioning.Config.Number

/-! The tokens of a program text, with their lines. After the last one comes a mark of the end of the
text, or of the place where the text has no token. -/

namespace Provisioning.Config

inductive Token where
  | name (s : String)
  | reserved (word : String)
  | symbol (s : String)
  | string (s : Bytes)
  /-- A numeral; an integer or a float. -/
  | number (v : Value)
  | finish
  | invalid

/-- A token in a text. -/
structure Lexeme where
  token : Token
  /-- The line in which the token ends. -/
  line : Nat
  /-- The line in which the token before it ends. -/
  before : Nat

namespace Token

def reservedWords : List String :=
  ["and", "break", "do", "else", "elseif", "end", "false", "for", "function", "goto", "if", "in", "local",
    "nil", "not", "or", "repeat", "return", "then", "true", "until", "while"]

/-- The symbols; of two that fit, the earlier one is taken. -/
def symbols : List String :=
  ["...", "..", "==", "~=", "<=", ">=", "<<", ">>", "//", "::", "+", "-", "*", "/", "%", "^", "#", "&",
    "~", "|", "<", ">", "=", "(", ")", "\x7b", "\x7d", "[", "]", ";", ":", ",", "."]

/-- A character of a program and what comes after it. -/
abbrev Read (α : Type) := Option (α × List Char)

def isNameStart (c : Char) : Bool := c.isAlpha || c = '_'

def isNamePart (c : Char) : Bool := c.isAlphanum || c = '_'

/-- The text after `expected`. -/
def after? : List Char → List Char → Option (List Char)
  | [], cs => some cs
  | e :: es, c :: cs => if e = c then after? es cs else none
  | _ :: _, [] => none

/-! ### Lines -/

/-- The text after a line end; two characters that end a line are one end if they differ. -/
def afterLineEnd? : List Char → Option (List Char)
  | '\n' :: '\r' :: rest => some rest
  | '\r' :: '\n' :: rest => some rest
  | '\n' :: rest => some rest
  | '\r' :: rest => some rest
  | _ => none

/-- The number of line ends. -/
def lineEnds : List Char → Nat
  | '\n' :: '\r' :: rest => lineEnds rest + 1
  | '\r' :: '\n' :: rest => lineEnds rest + 1
  | '\n' :: rest => lineEnds rest + 1
  | '\r' :: rest => lineEnds rest + 1
  | _ :: rest => lineEnds rest
  | [] => 0

/-- The text from the end of the line on. -/
def skipLine (cs : List Char) : List Char := cs.dropWhile fun c => c ≠ '\n' && c ≠ '\r'

/-! ### Long brackets -/

/-- The level of a long bracket after its first character, and the text inside. -/
def longOpening? (cs : List Char) : Read Nat :=
  let level := (cs.takeWhile (· = '=')).length
  (after? ['['] (cs.drop level)).map fun rest => (level, rest)

/-- The text after a closing bracket of a level, without its first character. -/
def longClosing? (level : Nat) (cs : List Char) : Option (List Char) :=
  after? (List.replicate level '=' ++ [']']) cs

/-- A string that is being read, its bytes in reverse, and the number of line ends in it. -/
structure Draft where
  bytes : Bytes
  lines : Nat

def Draft.add (d : Draft) (bytes : Bytes) (lines : Nat) : Draft :=
  ⟨bytes.reverse ++ d.bytes, d.lines + lines⟩

/-- The content of a long bracket after what is drafted, each line end being a line feed; `fuel` bounds
its length. -/
def readLong (level : Nat) : Nat → Draft → List Char → Read Draft
  | 0, _, _ => none
  | fuel + 1, d, cs =>
    match cs with
    | [] => none
    | c :: rest =>
      match if c = ']' then longClosing? level rest else none with
      | some rest => some (d, rest)
      | none =>
        match afterLineEnd? cs with
        | some rest => readLong level fuel (d.add [10] 1) rest
        | none => readLong level fuel (d.add (Text.utf8 (String.singleton c)) 0) rest

/-- The content of a long bracket after its opening. A line end right after the opening is left out. -/
def longContent (level : Nat) (cs : List Char) : Read Draft :=
  match afterLineEnd? cs with
  | some rest => readLong level (cs.length + 1) ⟨[], 1⟩ rest
  | none => readLong level (cs.length + 1) ⟨[], 0⟩ cs

/-! ### Quoted strings -/

/-- The bytes of a code point in the form that has up to six bytes. -/
def wideUtf8 (n : Nat) : Bytes :=
  let tail (k : Nat) : UInt8 := UInt8.ofNat (0x80 + (n >>> (6 * k)) % 64)
  if n < 0x80 then [UInt8.ofNat n]
  else if n < 0x800 then [UInt8.ofNat (0xC0 + (n >>> 6)), tail 0]
  else if n < 0x10000 then [UInt8.ofNat (0xE0 + (n >>> 12)), tail 1, tail 0]
  else if n < 0x200000 then [UInt8.ofNat (0xF0 + (n >>> 18)), tail 2, tail 1, tail 0]
  else if n < 0x4000000 then [UInt8.ofNat (0xF8 + (n >>> 24)), tail 3, tail 2, tail 1, tail 0]
  else [UInt8.ofNat (0xFC + (n >>> 30)), tail 4, tail 3, tail 2, tail 1, tail 0]

/-- The byte of an escape of one letter. -/
def letterEscape? (c : Char) : Option UInt8 :=
  match c with
  | 'a' => some 7
  | 'b' => some 8
  | 't' => some 9
  | 'n' => some 10
  | 'v' => some 11
  | 'f' => some 12
  | 'r' => some 13
  | '\\' => some 92
  | '\x22' => some 34
  | '\x27' => some 39
  | _ => none

/-- The bytes of an escape after its backslash, and the number of line ends in it. -/
def readEscape (cs : List Char) : Read (Bytes × Nat) :=
  match afterLineEnd? cs with
  | some rest => some (([10], 1), rest)
  | none =>
    match cs with
    | 'x' :: a :: b :: rest =>
      match Text.hexValue? a, Text.hexValue? b with
      | some m, some n => some (([UInt8.ofNat (16 * m + n)], 0), rest)
      | _, _ => none
    | 'z' :: rest =>
      some (([], lineEnds (rest.takeWhile Numeral.isBlank)), rest.dropWhile Numeral.isBlank)
    | 'u' :: '\x7b' :: rest =>
      let digits := rest.takeWhile Numeral.isHex
      let n := Numeral.ofHex digits
      if digits.isEmpty || 0x80000000 ≤ n then none
      else (after? ['\x7d'] (rest.drop digits.length)).map fun rest => ((wideUtf8 n, 0), rest)
    | c :: rest =>
      if c.isDigit then
        let digits := (cs.take 3).takeWhile Char.isDigit
        let n := Decimal.ofDigits digits
        if n < 256 then some (([UInt8.ofNat n], 0), cs.drop digits.length) else none
      else (letterEscape? c).map fun b => (([b], 0), rest)
    | [] => none

/-- The content of a string up to its closing quote, after what is drafted. A line end has to be escaped;
`fuel` bounds its length. -/
def readQuoted (quote : Char) : Nat → Draft → List Char → Read Draft
  | 0, _, _ => none
  | _, _, [] => none
  | fuel + 1, d, c :: rest =>
    if c = quote then some (d, rest)
    else if c = '\n' ∨ c = '\r' then none
    else if c = '\\' then
      match readEscape rest with
      | none => none
      | some ((bytes, lines), rest) => readQuoted quote fuel (d.add bytes lines) rest
    else readQuoted quote fuel (d.add (Text.utf8 (String.singleton c)) 0) rest

/-! ### Numerals -/

/-- The characters of a numeral: digits of any base, points, the letter of an exponent and a sign right
after that letter. -/
def numeralPart (mark : Char) : Bool → List Char → List Char × List Char
  | _, [] => ([], [])
  | afterMark, c :: rest =>
    if Numeral.isHex c || c = '.' || c.toLower = mark || (afterMark && (c = '+' || c = '-')) then
      let (part, r) := numeralPart mark (c.toLower = mark) rest
      (c :: part, r)
    else ([], c :: rest)

/-- A numeral. No letter may follow it. -/
def readNumeral (cs : List Char) : Read Value :=
  let (start, rest, mark) : List Char × List Char × Char :=
    match cs with
    | '0' :: 'x' :: rest => (['0', 'x'], rest, 'p')
    | '0' :: 'X' :: rest => (['0', 'X'], rest, 'p')
    | cs => ([], cs, 'e')
  let (part, rest) := numeralPart mark false rest
  if rest.head?.any isNameStart then none
  else (Numeral.parse? (start ++ part)).map fun v => (v, rest)

/-! ### Texts -/

/-- Adds a token that ends in a line to tokens in reverse. -/
def push (t : Token) (line : Nat) (done : List Lexeme) : List Lexeme :=
  ⟨t, line, (done.head?.map (·.line)).getD 1⟩ :: done

/-- All tokens, ended by a mark. -/
def close (mark : Token) (line : Nat) (done : List Lexeme) : List Lexeme :=
  (push mark line done).reverse

/-- The tokens of a text that starts in a line, after those in `done`; `fuel` bounds their number and that
of the blanks and comments. -/
def scan : Nat → List Lexeme → Nat → List Char → List Lexeme
  | 0, done, line, _ => close .invalid line done
  | _, done, line, [] => close .finish line done
  | fuel + 1, done, line, '-' :: '-' :: '[' :: rest =>
    match longOpening? rest with
    | some (level, inner) =>
      match longContent level inner with
      | some (d, rest) => scan fuel done (line + d.lines) rest
      | none => close .invalid line done
    | none => scan fuel done line (skipLine rest)
  | fuel + 1, done, line, '-' :: '-' :: rest => scan fuel done line (skipLine rest)
  | fuel + 1, done, line, c :: rest =>
    match afterLineEnd? (c :: rest) with
    | some rest => scan fuel done (line + 1) rest
    | none =>
      if Numeral.isBlank c then scan fuel done line rest
      else if isNameStart c then
        let word := String.ofList ((c :: rest).takeWhile isNamePart)
        let t := if word ∈ reservedWords then Token.reserved word else .name word
        scan fuel (push t line done) line ((c :: rest).dropWhile isNamePart)
      else if c.isDigit || (c = '.' && rest.head?.any Char.isDigit) then
        match readNumeral (c :: rest) with
        | some (v, rest) => scan fuel (push (.number v) line done) line rest
        | none => close .invalid line done
      else if c = '\x22' ∨ c = '\x27' then
        match readQuoted c (rest.length + 1) ⟨[], 0⟩ rest with
        | some (d, rest) =>
          let line := line + d.lines
          scan fuel (push (.string d.bytes.reverse) line done) line rest
        | none => close .invalid line done
      else
        match if c = '[' then longOpening? rest else none with
        | some (level, inner) =>
          match longContent level inner with
          | some (d, rest) =>
            let line := line + d.lines
            scan fuel (push (.string d.bytes.reverse) line done) line rest
          | none => close .invalid line done
        | none =>
          if c = '[' && rest.head? = some '=' then close .invalid line done
          else
            match symbols.findSome? fun s => (after? s.toList (c :: rest)).map fun rest => (s, rest) with
            | some (s, rest) => scan fuel (push (.symbol s) line done) line rest
            | none => close .invalid line done

def ofText (text : String) : List Lexeme :=
  let cs := text.toList
  scan (cs.length + 1) [] 1 cs

end Token

end Provisioning.Config
