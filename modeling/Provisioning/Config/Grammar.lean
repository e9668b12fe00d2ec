import Provisioning.Config.Program
import Provisioning.Config.Token

/-! The program of a text, by recursive descent. Each reader gives what it has read and the tokens after
it; `fuel` bounds how deep readers call each other. Expressions, steps and the targets of an assignment
may nest to a limit, and a text that goes beyond it is refused for that reason. -/

namespace Provisioning.Config

namespace Program

/-- What a reader has read, and the tokens after it. -/
abbrev Parsed (α : Type) := α × List Lexeme

variable {α : Type}

def refuse : Except Refusal α := .error .malformed

/-! ### Tokens -/

def symbol? (s : String) : List Lexeme → Option (List Lexeme)
  | ⟨.symbol t, _, _⟩ :: rest => if t = s then some rest else none
  | _ => none

/-- The tokens after a symbol that has to be there. -/
def symbol (s : String) (ts : List Lexeme) : Except Refusal (List Lexeme) :=
  match symbol? s ts with
  | some ts => .ok ts
  | none => refuse

/-- The tokens after a word that has to be there. -/
def reserved (word : String) : List Lexeme → Except Refusal (List Lexeme)
  | ⟨.reserved w, _, _⟩ :: rest => if w = word then .ok rest else refuse
  | _ => refuse

def name : List Lexeme → Except Refusal (Parsed String)
  | ⟨.name s, _, _⟩ :: rest => .ok (s, rest)
  | _ => refuse

/-- Names after the first one, a comma before each. -/
def moreNames : List Lexeme → List String × List Lexeme
  | ⟨.symbol ",", _, _⟩ :: ⟨.name s, _, _⟩ :: rest =>
    let (names, rest) := moreNames rest
    (s :: names, rest)
  | rest => ([], rest)

def names (ts : List Lexeme) : Except Refusal (Parsed (List String)) := do
  let (s, ts) ← name ts
  let (others, ts) := moreNames ts
  return (s :: others, ts)

/-- The parameters of a function after the opening parenthesis. -/
def parameters (ts : List Lexeme) : Except Refusal (Parsed (List String)) :=
  match symbol? ")" ts with
  | some ts => .ok ([], ts)
  | none => do
    let (names, ts) ← names ts
    return (names, ← symbol ")" ts)

/-- The line of the next token. -/
def lineOf (ts : List Lexeme) : Nat := (ts.head?.map (·.line)).getD 1

/-- The line of the last token that was read. -/
def lineBefore (ts : List Lexeme) : Nat := (ts.head?.map (·.before)).getD 1

/-- The number of levels that a text may not reach. -/
def maxLevels : Nat := 200

/-- One level deeper. A token that is none counts first. -/
def deeper (level : Nat) : List Lexeme → Except Refusal Nat
  | ⟨.invalid, _, _⟩ :: _ => refuse
  | _ => if maxLevels ≤ level + 1 then .error .tooDeep else .ok (level + 1)

/-! ### Operators -/

/-- What joins two expressions. -/
inductive Joint where
  | and
  | or
  | operator (op : BinaryOperator)

/-- Joins two expressions; `line` is the line of the operator and `final` that of the last token. -/
def Joint.join (j : Joint) (e f : Expression) (line final : Nat) : Expression :=
  match j with
  | .and => .and e f
  | .or => .or e f
  | .operator (.comparison op) => .binary (.comparison op) e f final
  | .operator op => .binary op e f line

/-- How tight a joint binds the expression before it and the one after it. -/
def Joint.strength : Joint → Nat × Nat
  | .or => (1, 1)
  | .and => (2, 2)
  | .operator op =>
    match op with
    | .comparison _ => (3, 3)
    | .concat => (9, 8)
    | .arithmetic .multiply => (11, 11)
    | .arithmetic _ => (10, 10)

/-- How tight an operator before an expression binds it. -/
def unaryStrength : Nat := 12

def operator? : String → Option BinaryOperator
  | ".." => some .concat
  | "+" => some (.arithmetic .add)
  | "-" => some (.arithmetic .subtract)
  | "*" => some (.arithmetic .multiply)
  | "==" => some (.comparison .equal)
  | "~=" => some (.comparison .notEqual)
  | "<" => some (.comparison .less)
  | "<=" => some (.comparison .lessEqual)
  | ">" => some (.comparison .greater)
  | ">=" => some (.comparison .greaterEqual)
  | _ => none

def joint? : List Lexeme → Option (Joint × List Lexeme)
  | ⟨.reserved "and", _, _⟩ :: ts => some (.and, ts)
  | ⟨.reserved "or", _, _⟩ :: ts => some (.or, ts)
  | ⟨.symbol s, _, _⟩ :: ts => (operator? s).map fun op => (.operator op, ts)
  | _ => none

def unary? : List Lexeme → Option (UnaryOperator × List Lexeme)
  | ⟨.reserved "not", _, _⟩ :: ts => some (.not, ts)
  | ⟨.symbol "-", _, _⟩ :: ts => some (.negate, ts)
  | ⟨.symbol "#", _, _⟩ :: ts => some (.length, ts)
  | _ => none

/-! ### Expressions and steps -/

/-- A token that ends a block. -/
def endsBlock : List Lexeme → Bool
  | ⟨.finish, _, _⟩ :: _ => true
  | ⟨.reserved w, _, _⟩ :: _ => w = "end" || w = "else" || w = "elseif" || w = "until"
  | _ => false

/-- What can stand before an equals sign. -/
def isPlace : Expression → Bool
  | .variable .. => true
  | .index .. => true
  | _ => false

def isCall : Expression → Bool
  | .call .. => true
  | _ => false

def key (s : String) : Expression := .constant (.text s)

/-- The names after the first one in the name of a function. -/
def functionName (target : Expression) : List Lexeme → Expression × List Lexeme
  | ⟨.symbol ".", _, _⟩ :: ⟨.name s, line, _⟩ :: ts => functionName (.index target (key s) line) ts
  | ts => (target, ts)

mutual

/-- An expression whose operators bind tighter than `limit`. -/
def expression (limit level : Nat) : Nat → List Lexeme → Except Refusal (Parsed Expression)
  | 0, _ => refuse
  | fuel + 1, ts => do
    let level ← deeper level ts
    match unary? ts with
    | some (op, rest) =>
      let (e, rest) ← expression unaryStrength level fuel rest
      operators limit level (.unary op e (lineOf ts)) fuel rest
    | none =>
      let (e, ts) ← simple level fuel ts
      operators limit level e fuel ts
termination_by structural n => n

/-- The operators after an expression and what they join to it. -/
def operators (limit level : Nat) (e : Expression) :
    Nat → List Lexeme → Except Refusal (Parsed Expression)
  | 0, _ => refuse
  | fuel + 1, ts =>
    match joint? ts with
    | none => .ok (e, ts)
    | some (j, rest) =>
      if j.strength.1 ≤ limit then .ok (e, ts)
      else do
        let (f, rest) ← expression j.strength.2 level fuel rest
        operators limit level (j.join e f (lineOf ts) (lineBefore rest)) fuel rest
termination_by structural n => n

def simple (level : Nat) : Nat → List Lexeme → Except Refusal (Parsed Expression)
  | 0, _ => refuse
  | fuel + 1, ts =>
    match ts with
    | ⟨.number v, _, _⟩ :: ts => .ok (.constant v, ts)
    | ⟨.string s, _, _⟩ :: ts => .ok (.constant (.string s), ts)
    | ⟨.reserved "nil", _, _⟩ :: ts => .ok (.constant .nil, ts)
    | ⟨.reserved "true", _, _⟩ :: ts => .ok (.constant (.boolean true), ts)
    | ⟨.reserved "false", _, _⟩ :: ts => .ok (.constant (.boolean false), ts)
    | ⟨.symbol "\x7b", _, _⟩ :: ts => do
      let (fields, ts) ← fieldList level fuel ts
      return (.table fields, ts)
    | ⟨.reserved "function", _, _⟩ :: ts => do
      let ((parameters, body), ts) ← function level fuel ts
      return (.function parameters body, ts)
    | ts => suffixed level fuel ts
termination_by structural n => n

/-- A name or an expression in parentheses, with indices and calls after it. -/
def suffixed (level : Nat) : Nat → List Lexeme → Except Refusal (Parsed Expression)
  | 0, _ => refuse
  | fuel + 1, ts =>
    match ts with
    | ⟨.name s, line, _⟩ :: ts => suffixes level (.variable s line) fuel ts
    | ⟨.symbol "(", _, _⟩ :: ts => do
      let (e, ts) ← expression 0 level fuel ts
      suffixes level (.group e) fuel (← symbol ")" ts)
    | _ => refuse
termination_by structural n => n

def suffixes (level : Nat) (e : Expression) : Nat → List Lexeme → Except Refusal (Parsed Expression)
  | 0, _ => refuse
  | fuel + 1, ts =>
    match ts with
    | ⟨.symbol ".", _, _⟩ :: ⟨.name s, line, _⟩ :: ts =>
      suffixes level (.index e (key s) line) fuel ts
    | ⟨.symbol ".", _, _⟩ :: _ => refuse
    | ⟨.symbol ":", _, _⟩ :: _ => refuse
    | ⟨.symbol "[", _, _⟩ :: ts => do
      let (k, ts) ← expression 0 level fuel ts
      suffixes level (.index e k (lineOf ts)) fuel (← symbol "]" ts)
    | ⟨.string s, line, _⟩ :: ts => suffixes level (.call e [.constant (.string s)] line) fuel ts
    | ⟨.symbol "\x7b", line, _⟩ :: ts => do
      let (fields, ts) ← fieldList level fuel ts
      suffixes level (.call e [.table fields] line) fuel ts
    | ⟨.symbol "(", line, _⟩ :: ⟨.symbol ")", _, _⟩ :: ts => suffixes level (.call e [] line) fuel ts
    | ⟨.symbol "(", line, _⟩ :: ts => do
      let (es, ts) ← expressions level fuel ts
      suffixes level (.call e es line) fuel (← symbol ")" ts)
    | ts => .ok (e, ts)
termination_by structural n => n

/-- Expressions with commas between them, one at least. -/
def expressions (level : Nat) : Nat → List Lexeme → Except Refusal (Parsed (List Expression))
  | 0, _ => refuse
  | fuel + 1, ts => do
    let (e, ts) ← expression 0 level fuel ts
    match symbol? "," ts with
    | none => return ([e], ts)
    | some ts =>
      let (es, ts) ← expressions level fuel ts
      return (e :: es, ts)
termination_by structural n => n

/-- The fields of a table up to its closing brace. A comma or a semicolon may stand after the last one. -/
def fieldList (level : Nat) : Nat → List Lexeme → Except Refusal (Parsed (List Field))
  | 0, _ => refuse
  | fuel + 1, ts =>
    match symbol? "\x7d" ts with
    | some ts => .ok ([], ts)
    | none => do
      let (f, ts) ← field level fuel ts
      match (symbol? "," ts).or (symbol? ";" ts) with
      | some ts =>
        let (fs, ts) ← fieldList level fuel ts
        return (f :: fs, ts)
      | none => return ([f], ← symbol "\x7d" ts)
termination_by structural n => n

def field (level : Nat) : Nat → List Lexeme → Except Refusal (Parsed Field)
  | 0, _ => refuse
  | fuel + 1, ts =>
    match ts with
    | ⟨.symbol "[", _, _⟩ :: ts => do
      let (k, ts) ← expression 0 level fuel ts
      let (v, ts) ← expression 0 level fuel (← symbol "=" (← symbol "]" ts))
      return (.entry k v (lineBefore ts), ts)
    | ⟨.name s, _, _⟩ :: ⟨.symbol "=", _, _⟩ :: ts => do
      let (v, ts) ← expression 0 level fuel ts
      return (.entry (key s) v (lineBefore ts), ts)
    | ts => do
      let (v, ts) ← expression 0 level fuel ts
      return (.item v, ts)
termination_by structural n => n

/-- The parameters and the body of a function, up to its end. -/
def function (level : Nat) : Nat → List Lexeme → Except Refusal (Parsed (List String × List Step))
  | 0, _ => refuse
  | fuel + 1, ts => do
    let (parameters, ts) ← parameters (← symbol "(" ts)
    let (body, ts) ← closedBlock level fuel ts
    return ((parameters, body), ts)
termination_by structural n => n

/-- A block and the word that ends it. -/
def closedBlock (level : Nat) : Nat → List Lexeme → Except Refusal (Parsed (List Step))
  | 0, _ => refuse
  | fuel + 1, ts => do
    let (body, ts) ← block level fuel ts
    return (body, ← reserved "end" ts)
termination_by structural n => n

/-- Steps up to a token that ends a block. Nothing comes after a return. -/
def block (level : Nat) : Nat → List Lexeme → Except Refusal (Parsed (List Step))
  | 0, _ => refuse
  | fuel + 1, ts =>
    if endsBlock ts then .ok ([], ts)
    else do
      let inner ← deeper level ts
      match ts with
      | ⟨.symbol ";", _, _⟩ :: ts => block level fuel ts
      | ⟨.reserved "return", _, _⟩ :: ts =>
        let (es, ts) ←
          if endsBlock ts || (symbol? ";" ts).isSome then pure ([], ts)
          else expressions inner fuel ts
        let ts := (symbol? ";" ts).getD ts
        if endsBlock ts then return ([.leave es], ts) else refuse
      | ts =>
        let (s, ts) ← step inner fuel ts
        let (rest, ts) ← block level fuel ts
        return (s :: rest, ts)
termination_by structural n => n

def step (level : Nat) : Nat → List Lexeme → Except Refusal (Parsed Step)
  | 0, _ => refuse
  | fuel + 1, ts =>
    match ts with
    | ⟨.reserved "if", _, _⟩ :: ts => branch level fuel ts
    | ⟨.reserved "while", _, _⟩ :: ts => do
      let (condition, ts) ← expression 0 level fuel ts
      let (body, ts) ← closedBlock level fuel (← reserved "do" ts)
      return (.loopWhile condition body, ts)
    | ⟨.reserved "do", _, _⟩ :: ts => do
      let (body, ts) ← closedBlock level fuel ts
      return (.block body, ts)
    | ⟨.reserved "for", _, _⟩ :: ⟨.name s, _, _⟩ :: ⟨.symbol "=", _, _⟩ :: ts => do
      let (start, ts) ← expression 0 level fuel ts
      let (last, ts) ← expression 0 level fuel (← symbol "," ts)
      let (increment, ts) ←
        match symbol? "," ts with
        | some ts => do
          let (e, ts) ← expression 0 level fuel ts
          pure (some e, ts)
        | none => pure (none, ts)
      let line := lineOf ts
      let (body, ts) ← closedBlock level fuel (← reserved "do" ts)
      return (.loopFrom s start last increment body line, ts)
    | ⟨.reserved "for", _, _⟩ :: ts => do
      let (names, ts) ← names ts
      let ts ← reserved "in" ts
      let line := lineOf ts
      let (es, ts) ← expressions level fuel ts
      let (body, ts) ← closedBlock level fuel (← reserved "do" ts)
      return (.loopOver names es body line, ts)
    | ⟨.reserved "function", line, _⟩ :: ⟨.name s, nameLine, _⟩ :: ts => do
      let (target, ts) := functionName (.variable s nameLine) ts
      let ((parameters, body), ts) ← function level fuel ts
      return (.assign [target] [.function parameters body] line, ts)
    | ⟨.reserved "local", _, _⟩ :: ⟨.reserved "function", _, _⟩ :: ts => do
      let (s, ts) ← name ts
      let ((parameters, body), ts) ← function level fuel ts
      return (.declareFunction s parameters body, ts)
    | ⟨.reserved "local", _, _⟩ :: ts => do
      let (names, ts) ← names ts
      match symbol? "=" ts with
      | none => return (.declare names [], ts)
      | some ts =>
        let (es, ts) ← expressions level fuel ts
        return (.declare names es, ts)
    | ts => do
      let (e, ts) ← suffixed level fuel ts
      if (symbol? "," ts).isSome || (symbol? "=" ts).isSome then assignment level [e] fuel ts
      else if isCall e then return (.evaluate e, ts)
      else refuse
termination_by structural n => n

/-- The conditions and blocks of a branch after its first word, up to its end. -/
def branch (level : Nat) : Nat → List Lexeme → Except Refusal (Parsed Step)
  | 0, _ => refuse
  | fuel + 1, ts => do
    let (condition, ts) ← expression 0 level fuel ts
    let (yes, ts) ← block level fuel (← reserved "then" ts)
    match ts with
    | ⟨.reserved "elseif", _, _⟩ :: ts =>
      let (s, ts) ← branch level fuel ts
      return (.branch condition yes [s], ts)
    | ⟨.reserved "else", _, _⟩ :: ts =>
      let (no, ts) ← closedBlock level fuel ts
      return (.branch condition yes no, ts)
    | ts => return (.branch condition yes [], ← reserved "end" ts)
termination_by structural n => n

/-- The places of an assignment, the last one first, and the values for them. -/
def assignment (level : Nat) (targets : List Expression) :
    Nat → List Lexeme → Except Refusal (Parsed Step)
  | 0, _ => refuse
  | fuel + 1, ts =>
    if !targets.all isPlace then refuse
    else
      match symbol? "," ts with
      | some ts => do
        let (e, ts) ← suffixed level fuel ts
        assignment (← deeper level ts) (e :: targets) fuel ts
      | none => do
        let (es, ts) ← expressions level fuel (← symbol "=" ts)
        return (.assign targets.reverse es (lineBefore ts), ts)
termination_by structural n => n

end

/-- The program of a list of tokens. Each token is the reason for a few nested readers at most. -/
def ofTokens (ts : List Lexeme) : Except Refusal Program := do
  let (p, rest) ← block 0 (16 * ts.length + 16) ts
  match rest with
  | [⟨.finish, _, _⟩] => return p
  | _ => refuse

def ofText (text : String) : Except Refusal Program := ofTokens (Token.ofText text)

end Program

end Provisioning.Config
