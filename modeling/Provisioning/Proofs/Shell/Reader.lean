import Provisioning.Shell.Script

/-! Reading a script as a POSIX shell does. A word ends at a blank, at the end of a line or at an operator;
backslashes and quotes take the meaning from the characters after them or between them, and an operator is as
long as it can be. A word in which nothing is expanded is the text of an argument. Characters that mean something
only to some shells (braces, the history sign) count as expanded, and a here-document is not read. -/

namespace Provisioning.Shell

/-! ### Characters -/

/-- What a character does outside of quotes. -/
inductive Role where
  | plain
  | blank
  | lineFeed
  | backslash
  | doubleQuote
  | singleQuote
  | operator
  /-- Makes a comment of the rest of the line where a word could begin. -/
  | comment
  /-- Expanded between double quotes, too. -/
  | expansion
  /-- Part of a pattern or of braces, a home directory, or a line of the history. -/
  | pattern
deriving DecidableEq, Repr

def operatorChars : List Char := ['|', '&', ';', '<', '>', '(', ')']

def patternChars : List Char := ['*', '?', '[', ']', '\x7b', '\x7d', '~', '!']

def role (c : Char) : Role :=
  if c = ' ' ∨ c = '\t' then .blank
  else if c = '\n' then .lineFeed
  else if c = '\\' then .backslash
  else if c = '\x22' then .doubleQuote
  else if c = '\x27' then .singleQuote
  else if c ∈ operatorChars then .operator
  else if c = '#' then .comment
  else if c = '$' ∨ c = '\x60' then .expansion
  else if c ∈ patternChars then .pattern
  else .plain

/-! ### Words and tokens -/

/-- A character of a word. -/
inductive Mark where
  /-- Not quoted, and without a meaning of its own. -/
  | plain (c : Char)
  | quoted (c : Char)
  /-- Not quoted as far as it has a meaning of its own. -/
  | active (c : Char)
deriving DecidableEq, Repr

abbrev Word := List Mark

/-- The character, if it stands for itself. -/
def Mark.char? : Mark → Option Char
  | .plain c => some c
  | .quoted c => some c
  | .active _ => none

/-- The text that a word stands for, if nothing in it is expanded. A bracket alone is the name of a command, or
its last argument, and no pattern. -/
def Word.text? (w : Word) : Option String :=
  if w = [.active '['] then some "["
  else if w = [.active ']'] then some "]"
  else (w.mapM Mark.char?).map String.ofList

inductive Token where
  /-- A word that stands for its text. -/
  | argument (text : String)
  /-- A word that is expanded. -/
  | expansion (word : Word)
  | operator (text : String)
  | lineEnd
deriving DecidableEq, Repr

def Token.ofWord (w : Word) : Token :=
  match w.text? with
  | some text => .argument text
  | none => .expansion w

/-! ### Reading -/

/-- What is being read. -/
inductive Pending where
  | nothing
  | word (w : Word)
  /-- With the number in front of it, if it redirects a stream that is named by one. -/
  | operator (text : List Char)
deriving DecidableEq, Repr

/-- Where the next character stands. -/
inductive Mode where
  | bare
  /-- After a backslash. -/
  | escaped
  | double
  /-- After a backslash between double quotes. -/
  | doubleEscaped
  | single
  | comment
  /-- In a here-document. -/
  | lost
deriving DecidableEq, Repr

structure Reader where
  /-- The tokens before the one that is being read. -/
  tokens : List Token
  pending : Pending
  mode : Mode
deriving DecidableEq, Repr

def operators : List (List Char) :=
  ["&&", "||", ";;", "<<", ">>", "<&", ">&", "<>", ">|"].map String.toList

/-- An unquoted number. -/
def Word.isNumber (w : Word) : Bool :=
  !w.isEmpty && w.all fun
    | .plain c => c.isDigit
    | _ => false

namespace Reader

def start : Reader := ⟨[], .nothing, .bare⟩

/-- Ends the word or the operator. -/
def finish (r : Reader) : Reader :=
  match r.pending with
  | .nothing => r
  | .word w => { r with tokens := r.tokens ++ [.ofWord w], pending := .nothing }
  | .operator o => { r with tokens := r.tokens ++ [.operator (String.ofList o)], pending := .nothing }

def add (r : Reader) (t : Token) : Reader := { r with tokens := r.tokens ++ [t] }

def into (r : Reader) (m : Mode) : Reader := { r with mode := m }

/-- Goes on with the word, or begins one. -/
def extend (r : Reader) (marks : Word) : Reader :=
  match r.pending with
  | .word w => { r with pending := .word (w ++ marks) }
  | _ => { r.finish with pending := .word marks }

/-- A character of an operator belongs to the operator before it as far as there is such an operator. A number
right before a redirection belongs to it. -/
def operate (r : Reader) (c : Char) : Reader :=
  let next := { r.finish with pending := .operator [c] }
  match r.pending with
  | .nothing => next
  | .word w =>
    if (c = '<' ∨ c = '>') ∧ w.isNumber then
      { r with pending := .operator (w.filterMap Mark.char? ++ [c]) }
    else next
  | .operator o =>
    let longer := o.dropWhile Char.isDigit ++ [c]
    if longer ∈ operators then
      ({ r with pending := .operator (o ++ [c]) } : Reader).into (if longer = ['<', '<'] then .lost else r.mode)
    else next

/-- A character outside of quotes. -/
def bare (r : Reader) (c : Char) : Reader :=
  match role c with
  | .plain => r.extend [.plain c]
  | .blank => r.finish
  | .lineFeed => r.finish.add .lineEnd
  | .backslash => r.into .escaped
  | .doubleQuote => (r.extend []).into .double
  | .singleQuote => (r.extend []).into .single
  | .operator => r.operate c
  | .comment =>
    match r.pending with
    | .word _ => r.extend [.plain c]
    | _ => r.finish.into .comment
  | .expansion => r.extend [.active c]
  | .pattern => r.extend [.active c]

/-- A backslash at the end of a line is dropped with the end. Between double quotes it escapes nothing but
itself, a double quote and what is expanded there. -/
def step (r : Reader) (c : Char) : Reader :=
  match r.mode with
  | .bare => r.bare c
  | .escaped => if c = '\n' then r.into .bare else (r.extend [.quoted c]).into .bare
  | .double =>
    match role c with
    | .doubleQuote => r.into .bare
    | .backslash => r.into .doubleEscaped
    | .expansion => r.extend [.active c]
    | _ => r.extend [.quoted c]
  | .doubleEscaped =>
    match role c with
    | .lineFeed => r.into .double
    | .doubleQuote => (r.extend [.quoted c]).into .double
    | .backslash => (r.extend [.quoted c]).into .double
    | .expansion => (r.extend [.quoted c]).into .double
    | _ => (r.extend [.quoted '\\', .quoted c]).into .double
  | .single => if c = '\x27' then r.into .bare else r.extend [.quoted c]
  | .comment => if c = '\n' then (r.into .bare).bare c else r
  | .lost => r

def read (r : Reader) (cs : List Char) : Reader := cs.foldl step r

/-- The tokens, unless something is left open. -/
def ended? (r : Reader) : Option (List Token) :=
  match r.mode with
  | .bare => some r.finish.tokens
  | .comment => some r.finish.tokens
  | _ => none

/-- Reads up to the first place outside of quotes, and gives the text after it. -/
def readOut (r : Reader) : List Char → Option (Reader × List Char)
  | [] => none
  | c :: cs => if (r.step c).mode = .bare then some (r.step c, cs) else (r.step c).readOut cs

end Reader

/-- The tokens of a script in which everything that is opened is closed. -/
def tokens? (script : String) : Option (List Token) := (Reader.start.read script.toList).ended?

end Provisioning.Shell
