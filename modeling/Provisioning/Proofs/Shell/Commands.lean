import Provisioning.Proofs.Shell.Reader

/-! What the tokens of a script come to: its lines, the commands of a line, and the paths that a word with stars in it
matches. Lists of commands other than alternatives, compound commands and empty lines are not read. -/

namespace Provisioning.Shell

/-! ### Commands -/

structure SimpleCommand where
  words : List Token
  /-- The operators with what stands after them. -/
  redirections : List (String × Token)
deriving DecidableEq, Repr

def Token.isWord : Token → Bool
  | .argument _ => true
  | .expansion _ => true
  | .operator _ => false
  | .lineEnd => false

/-- The words that begin a compound command or go on with one. -/
def reservedWords : List String :=
  ["case", "do", "done", "elif", "else", "esac", "fi", "for", "if", "in", "then", "until", "while"]

/-- A number in front of the operator names the stream. -/
def redirects (operator : String) : Bool :=
  ["<", ">", ">>", "<&", ">&", "<>", ">|"].contains (String.ofList (operator.toList.dropWhile Char.isDigit))

namespace SimpleCommand

/-- Redirections may stand anywhere between the words. -/
def collect? : List Token → Option SimpleCommand
  | [] => some ⟨[], []⟩
  | .operator o :: target :: rest =>
    if redirects o && target.isWord then
      (collect? rest).map fun c => { c with redirections := (o, target) :: c.redirections }
    else none
  | t :: rest => if t.isWord then (collect? rest).map fun c => { c with words := t :: c.words } else none

def ofTokens? (ts : List Token) : Option SimpleCommand :=
  match collect? ts with
  | some ⟨.argument name :: words, redirections⟩ =>
    if name ∈ reservedWords then none else some ⟨.argument name :: words, redirections⟩
  | _ => none

end SimpleCommand

/-- Pipelines, each of which runs if those before it fail. -/
abbrev Line := List (List SimpleCommand)

namespace Line

def ofTokens? (ts : List Token) : Option Line :=
  (ts.splitOn (.operator "||")).mapM fun p => (p.splitOn (.operator "|")).mapM SimpleCommand.ofTokens?

/-- Whether the line succeeds, given which commands do. A pipeline counts by its last command. -/
def succeeds (ok : SimpleCommand → Bool) (line : Line) : Bool := line.any fun p => p.getLast?.any ok

end Line

def commandLines? (ts : List Token) : Option (List Line) := (ts.splitOn .lineEnd).mapM Line.ofTokens?

/-! ### Patterns -/

/-- A star matches any text without a slash. It does not match the dot of a hidden name, which the word has to begin
with; `first` says that a name begins here. -/
def Word.Matches (first : Bool) : Word → List Char → Prop
  | [], cs => cs = []
  | .active '*' :: w, cs => ∃ a rest, cs = a ++ rest ∧ '/' ∉ a ∧ (first = true → cs.head? ≠ some '.') ∧
      Matches (first && a.isEmpty) w rest
  | m :: w, cs => ∃ c rest, cs = c :: rest ∧ m.char? = some c ∧ Matches (c = '/') w rest

namespace Word

theorem matches_char {first : Bool} {m : Mark} {c : Char} (h : m.char? = some c) {w : Word} {cs : List Char} :
    Matches first (m :: w) cs ↔ ∃ rest, cs = c :: rest ∧ Matches (c = '/') w rest := by
  cases m with
  | active d => cases h
  | plain d | quoted d =>
    obtain rfl : d = c := Option.some.inj h
    constructor
    · rintro ⟨_, rest, rfl, same, later⟩
      obtain rfl : d = _ := Option.some.inj same
      exact ⟨rest, rfl, later⟩
    · rintro ⟨rest, rfl, later⟩
      exact ⟨d, rest, rfl, rfl, later⟩

theorem matches_chars {w : Word} {text : List Char} (h : w.map Mark.char? = text.map some) {first : Bool} {cs : List Char} :
    Matches first w cs ↔ cs = text := by
  induction w generalizing first text cs with
  | nil =>
    obtain rfl := List.map_eq_nil_iff.mp h.symm
    rfl
  | cons m w ih =>
    cases text with
    | nil => cases h
    | cons c text =>
      obtain ⟨same, later⟩ := List.cons.inj h
      rw [matches_char same]
      simp only [ih later, exists_eq_right]

/-- What begins with the text of a directory goes on with names in it. -/
theorem matches_directory {w names : Word} {directory : List Char} (h : w.map Mark.char? = directory.map some)
    {first : Bool} {cs : List Char} :
    Matches first (w ++ .plain '/' :: names) cs ↔ ∃ rest, cs = directory ++ '/' :: rest ∧ Matches true names rest := by
  induction w generalizing first directory cs with
  | nil =>
    obtain rfl := List.map_eq_nil_iff.mp h.symm
    exact matches_char rfl
  | cons m w ih =>
    cases directory with
    | nil => cases h
    | cons c directory =>
      obtain ⟨same, later⟩ := List.cons.inj h
      rw [List.cons_append, matches_char same]
      simp only [ih later, List.cons_append]
      constructor
      · rintro ⟨_, rfl, rest, rfl, inside⟩
        exact ⟨rest, rfl, inside⟩
      · rintro ⟨rest, rfl, inside⟩
        exact ⟨_, rfl, rest, rfl, inside⟩

end Word

end Provisioning.Shell
