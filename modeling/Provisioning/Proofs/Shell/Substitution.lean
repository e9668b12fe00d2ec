import Provisioning.Proofs.Shell.Reading

/-! Reading a script in which words have commands substituted. `$(` begins a script inside of a word, whether or not
double quotes stand around it, and no quotes are open where that script begins. It ends at the first closing parenthesis
that is not quoted in it. Subshells and arithmetic inside of a substitution are not read. -/

namespace Provisioning.Shell

structure Substitution where
  /-- Between double quotes, where what the script prints stays one word. -/
  quoted : Bool
  script : List Token
deriving DecidableEq, Repr

/-- A reader inside of the readers of the scripts around it. -/
structure Nest where
  reader : Reader
  /-- From the inside out. -/
  around : List Reader
  /-- The substitutions so far, in the order of their ends. -/
  closed : List Substitution
  /-- The last character is a dollar sign that may begin a substitution. -/
  dollar : Bool
deriving DecidableEq, Repr

/-- A word has the marks of a substitution where its script stands. -/
def substituted : Word := [.active '$', .active '(', .active ')']

/-- The character is a dollar sign, and it is expanded. -/
def Reader.expands (r : Reader) (c : Char) : Bool := c = '$' && (r.mode = .bare || r.mode = .double)

namespace Nest

def start : Nest := ⟨.start, [], [], false⟩

def enter (n : Nest) : Nest := ⟨.start, n.reader :: n.around, n.closed, false⟩

def leave (n : Nest) (outer : Reader) (around : List Reader) : Nest where
  reader := outer.extend [.active '(', .active ')']
  around := around
  closed := n.closed ++ [⟨outer.mode = .double, n.reader.finish.tokens⟩]
  dollar := false

/-- Two dollar signs are a parameter of their own, and begin no substitution. -/
def pass (n : Nest) (c : Char) : Nest :=
  { n with reader := n.reader.step c, dollar := n.reader.expands c && !n.dollar }

def step (n : Nest) (c : Char) : Nest :=
  if n.dollar ∧ c = '(' then n.enter
  else
    match n.around with
    | [] => n.pass c
    | outer :: around =>
      if n.reader.mode ≠ .bare then n.pass c
      else if c = ')' then n.leave outer around
      else if c = '(' then { n with reader := n.reader.into .lost, dollar := false }
      else n.pass c

def read (n : Nest) (cs : List Char) : Nest := cs.foldl step n

/-- The tokens and the substitutions, unless something is left open. -/
def ended? (n : Nest) : Option (List Token × List Substitution) :=
  match n.around with
  | [] => n.reader.ended?.map fun ts => (ts, n.closed)
  | _ => none

end Nest

/-- The tokens of a script in which everything that is opened is closed, and those of the scripts inside of its words. -/
def nestedTokens? (script : String) : Option (List Token × List Substitution) :=
  (Nest.start.read script.toList).ended?

/-! ### Texts without substitutions -/

/-- The character neither begins nor ends a substitution. -/
def Reader.Inert (r : Reader) (c : Char) : Prop := r.expands c = false ∧ (r.mode = .bare → c ≠ '(' ∧ c ≠ ')')

def Quiet : Reader → List Char → Prop
  | _, [] => True
  | r, c :: cs => r.Inert c ∧ Quiet (r.step c) cs

/-- The character has no part in a substitution, wherever it stands. -/
def isNeutral (c : Char) : Bool := c ≠ '$' && c ≠ '(' && c ≠ ')'

theorem isNeutral_of_plain {c : Char} (h : role c = .plain) : isNeutral c = true := by
  have dollar : c ≠ '$' := by rintro rfl; cases h
  have opening : c ≠ '(' := by rintro rfl; cases h
  have closing : c ≠ ')' := by rintro rfl; cases h
  simp [isNeutral, dollar, opening, closing]

namespace Quiet

open Reader

variable {r : Reader}

theorem append {a b : List Char} (h : Quiet r a) (h' : Quiet (r.read a) b) : Quiet r (a ++ b) := by
  induction a generalizing r with
  | nil => exact h'
  | cons c a ih => exact ⟨h.1, ih h.2 h'⟩

/-- The tokens that are read already make no difference. -/
theorem after {cs : List Char} (h : Quiet r cs) (ts : List Token) : Quiet (r.after ts) cs := by
  induction cs generalizing r with
  | nil => trivial
  | cons c cs ih =>
    rw [Quiet, step_after]
    exact ⟨h.1, ih h.2⟩

/-- Pieces that each leave the reader in the mode in which they find it. -/
theorem pieces {m : Mode} {f : Char → List Char} {cs : List Char}
    (h : ∀ c ∈ cs, ∀ r : Reader, r.mode = m → Quiet r (f c) ∧ (r.read (f c)).mode = m) (mode : r.mode = m) :
    Quiet r (cs.flatMap f) := by
  induction cs generalizing r with
  | nil => trivial
  | cons c cs ih =>
    obtain ⟨quiet, stays⟩ := h c List.mem_cons_self r mode
    rw [List.flatMap_cons]
    exact quiet.append (ih (fun d hd => h d (List.mem_cons_of_mem _ hd)) stays)

theorem of_neutral {cs : List Char} (h : cs.all isNeutral = true) (r : Reader) : Quiet r cs := by
  induction cs generalizing r with
  | nil => trivial
  | cons c cs ih =>
    rw [List.all_cons, Bool.and_eq_true] at h
    obtain ⟨⟨dollar, opening⟩, closing⟩ : (c ≠ '$' ∧ c ≠ '(') ∧ c ≠ ')' := by simpa [isNeutral] using h.1
    exact ⟨⟨by simp [expands, dollar], fun _ => ⟨opening, closing⟩⟩, ih h.2 _⟩

/-- Behind a backslash no character has a part in a substitution. -/
theorem kept (c : Char) (h : r.mode = .bare ∨ r.mode = .double) : Quiet r ['\\', c] := by
  have inside : (r.step '\\').mode = .escaped ∨ (r.step '\\').mode = .doubleEscaped := by
    rcases h with bare | double
    · exact .inl (congrArg Reader.mode (step_bare bare _))
    · exact .inr (congrArg Reader.mode (step_backslash double))
  refine ⟨⟨by simp [expands], fun _ => by decide⟩, ⟨?_, ?_⟩, trivial⟩
  · rcases inside with mode | mode <;> simp [expands, mode]
  · rcases inside with mode | mode <;> simp [mode]

theorem escapePath {cs : List Char} (h : ∀ c ∈ cs, Ordinary c) (bare : r.mode = .bare) :
    Quiet r (escapePathChars cs) := by
  rw [escapePathChars_of_ordinary h]
  refine pieces (fun c hc r bare => ?_) bare
  by_cases active : c ∈ pathActive
  · have noFeed : c ≠ '\n' := by
      rintro rfl
      revert active
      decide
    rw [if_pos active, Spells.escaped noFeed r bare, mode_extend]
    exact ⟨kept c (.inl bare), bare⟩
  · have plain : role c = .plain := (h c hc).resolve_right active
    rw [if_neg active, Spells.char plain r bare, mode_extend]
    exact ⟨of_neutral (by simp [isNeutral_of_plain plain]) r, bare⟩

theorem escapeQuoted (inside : r.mode = .double) (cs : List Char) : Quiet r (escapeQuotedChars cs) := by
  have split : escapeQuotedChars cs = cs.flatMap fun c => if c ∈ quoteActive then ['\\', c] else [c] := by
    induction cs with
    | nil => rfl
    | cons c cs ih =>
      rw [escapeQuotedChars, List.flatMap_cons, ih]
      split <;> rfl
  rw [split]
  refine pieces (fun c _ r inside => ?_) inside
  by_cases active : c ∈ quoteActive
  · have read : r.read ['\\', c] = r.extend [.quoted c] := by
      rw [read_cons, step_backslash inside]
      exact step_doubleEscaped inside active
    rw [if_pos active, read, mode_extend]
    exact ⟨kept c (.inr inside), inside⟩
  · have read : r.read [c] = r.extend [.quoted c] := step_inert inside active
    have dollar : c ≠ '$' := by
      rintro rfl
      exact active (by decide)
    rw [if_neg active, read, mode_extend]
    exact ⟨⟨⟨by simp [expands, dollar], by simp [inside]⟩, trivial⟩, inside⟩

theorem doubleQuote (bare : r.mode = .bare) (s : String) : Quiet r (Shell.doubleQuote s).toList := by
  have text : (Shell.doubleQuote s).toList = '\x22' :: (escapeQuotedChars s.toList ++ ['\x22']) := by
    simp [Shell.doubleQuote, doubleQuoteChars]
  have opened : (r.step '\x22').mode = .double := congrArg Reader.mode (step_bare bare '\x22')
  rw [text]
  exact ⟨⟨by simp [expands], fun _ => by decide⟩, (escapeQuoted opened _).append (of_neutral (by decide) _)⟩

end Quiet

/-! ### Reading with substitutions -/

namespace Nest

open Reader

theorem read_append (n : Nest) (a b : List Char) : n.read (a ++ b) = (n.read a).read b := List.foldl_append

theorem read_cons (n : Nest) (c : Char) (cs : List Char) : n.read (c :: cs) = (n.step c).read cs := rfl

theorem step_inert {n : Nest} (still : n.dollar = false) {c : Char} (h : n.reader.Inert c) :
    n.step c = { n with reader := n.reader.step c } := by
  have passed : n.pass c = { n with reader := n.reader.step c } := by
    rw [pass, h.1, still]
    rfl
  have noEntry : ¬(n.dollar = true ∧ c = '(') := by simp [still]
  rw [step, if_neg noEntry]
  split
  · exact passed
  · split
    · exact passed
    · next bare =>
      obtain ⟨opening, closing⟩ := h.2 (not_not.mp bare)
      rw [if_neg closing, if_neg opening, passed]

theorem step_quoted {n : Nest} (still : n.dollar = false) (inside : n.reader.mode = .double) (c : Char) :
    n.step c = n.pass c := by
  have noEntry : ¬(n.dollar = true ∧ c = '(') := by simp [still]
  rw [step, if_neg noEntry]
  split
  · rfl
  · rw [inside]
    rfl

theorem step_closing {n : Nest} {outer : Reader} {around : List Reader} (bare : n.reader.mode = .bare)
    (inside : n.around = outer :: around) : n.step ')' = n.leave outer around := by
  have noEntry : ¬(n.dollar = true ∧ ')' = '(') := by simp
  rw [step, if_neg noEntry, inside]
  dsimp only
  rw [if_neg (not_not.mpr bare), if_pos rfl]

/-- Without substitutions a text is read as if there were none around it either. -/
theorem read_quiet {n : Nest} (still : n.dollar = false) {cs : List Char} (h : Quiet n.reader cs) :
    n.read cs = { n with reader := n.reader.read cs } := by
  induction cs generalizing n with
  | nil => rfl
  | cons c cs ih =>
    have later := @ih { n with reader := n.reader.step c } still h.2
    rw [read_cons, step_inert still h.1, later]
    rfl

/-- Outside of quotes the characters go on with a word by `w`, or begin one with it, and hold the substitutions. -/
def Spells (cs : List Char) (w : Word) (ss : List Substitution) : Prop :=
  ∀ n : Nest, n.reader.mode = .bare → n.dollar = false →
    n.read cs = { n with reader := n.reader.extend w, closed := n.closed ++ ss }

namespace Spells

theorem quiet {cs : List Char} {w : Word} (h : Shell.Spells cs w) (q : ∀ r : Reader, r.mode = .bare → Quiet r cs) :
    Spells cs w [] := by
  intro n bare still
  rw [read_quiet still (q _ bare), h _ bare, List.append_nil]

theorem append {cs cs' : List Char} {w w' : Word} {ss ss' : List Substitution} (h : Spells cs w ss)
    (h' : Spells cs' w' ss') : Spells (cs ++ cs') (w ++ w') (ss ++ ss') := by
  intro n bare still
  have stays : (n.reader.extend w).mode = .bare := (mode_extend _ _).trans bare
  have later := h' { n with reader := n.reader.extend w, closed := n.closed ++ ss } stays still
  rw [read_append, h n bare still, later, extend_extend, List.append_assoc]

theorem plain {cs : List Char} (nonempty : cs ≠ []) (h : cs.all (role · = .plain) = true) :
    Spells cs (cs.map .plain) [] := by
  have each : ∀ c ∈ cs, role c = .plain := fun c hc => of_decide_eq_true (List.all_eq_true.mp h c hc)
  refine quiet (.plain nonempty each) fun r _ => .of_neutral (List.all_eq_true.mpr fun c hc => ?_) r
  exact isNeutral_of_plain (each c hc)

theorem escapePath {s : String} (nonempty : s ≠ "") (h : ∀ c ∈ s.toList, Ordinary c) :
    Spells (Shell.escapePath s).toList (pathWord s.toList) [] := by
  rw [toList_escapePath]
  exact quiet (.escapePath (mt String.toList_eq_nil_iff.mp nonempty) h) fun _ bare => .escapePath h bare

theorem doubleQuote (s : String) : Spells (Shell.doubleQuote s).toList (s.toList.map .quoted) [] :=
  quiet (.doubleQuote s) fun _ bare => .doubleQuote bare s

end Spells

/-- Between two words the text is read as the tokens and holds the substitutions. At its end nothing is open but the last
token. -/
def Reads (text : String) (ts : List Token) (ss : List Substitution) : Prop :=
  ∀ n : Nest, n.reader.AtRest → n.dollar = false → ∃ r : Reader,
    n.read text.toList = { n with reader := r, closed := n.closed ++ ss } ∧
      r.finish = ⟨n.reader.tokens ++ ts, .nothing, .bare⟩

namespace Reads

variable {text text' : String} {ts us : List Token} {ss tt : List Substitution}

theorem quiet (h : Shell.Reads text ts) (q : Quiet .start text.toList) : Reads text ts [] := by
  intro n rest still
  have before : n.reader = Reader.start.after n.reader.tokens := rest.eq_after
  have quiet : Quiet n.reader text.toList := by
    rw [before]
    exact q.after _
  refine ⟨_, by rw [read_quiet still quiet, List.append_nil], ?_⟩
  rw [before, read_after, finish_after, h]
  simp [Reader.after, Reader.start]

theorem neutral (h : Shell.Reads text ts) (h' : text.toList.all isNeutral = true) : Reads text ts [] :=
  quiet h (.of_neutral h' _)

theorem word {w : Word} (h : Spells text.toList w ss) : Reads text [.ofWord w] ss := by
  intro n rest still
  refine ⟨_, h n rest.2 still, ?_⟩
  rw [rest.eq_after, extend_after, finish_after]
  simp [Reader.after, Reader.start, extend, finish]

theorem doubleQuote (s : String) : Reads (Shell.doubleQuote s) [.argument s] [] := by
  have read := word (.doubleQuote s)
  rwa [ofWord_quoted] at read

theorem apart (c : Char) (ends : List Token) (h : Reads text ts ss) (h' : Reads text' us tt) (neutral : isNeutral c = true)
    (step : ∀ r : Reader, r.mode = .bare → r.step c = ⟨r.finish.tokens ++ ends, r.finish.pending, r.finish.mode⟩)
    {whole : String} (split : whole.toList = text.toList ++ c :: text'.toList) :
    Reads whole (ts ++ (ends ++ us)) (ss ++ tt) := by
  intro n rest still
  obtain ⟨r, read, finished⟩ := h n rest still
  have bare : r.mode = .bare := by rw [← mode_finish, finished]
  let m : Nest := { n with reader := r, closed := n.closed ++ ss }
  have quiet : Quiet r [c] := .of_neutral (by simp [neutral]) r
  have stepped : m.step c = { m with reader := ⟨n.reader.tokens ++ ts ++ ends, .nothing, .bare⟩ } := by
    rw [step_inert (n := m) still quiet.1, step r bare, finished]
  obtain ⟨r', read', finished'⟩ :=
    h' { m with reader := ⟨n.reader.tokens ++ ts ++ ends, .nothing, .bare⟩ } ⟨rfl, rfl⟩ still
  refine ⟨r', ?_, ?_⟩
  · rw [split, read_append, read, read_cons, stepped, read']
    simp [m]
  · rw [finished']
    simp

theorem blank (h : Reads text ts ss) (h' : Reads text' us tt) : Reads (text ++ " " ++ text') (ts ++ us) (ss ++ tt) := by
  refine apart ' ' [] h h' rfl (fun r bare => ?_) (by simp)
  rw [step_bare bare, List.append_nil]
  rfl

theorem lineFeed (h : Reads text ts ss) (h' : Reads text' us tt) :
    Reads (text ++ "\n" ++ text') (ts ++ .lineEnd :: us) (ss ++ tt) := by
  refine apart '\n' [.lineEnd] h h' rfl (fun r bare => ?_) (by simp)
  rw [step_bare bare]
  rfl

theorem nestedTokens? (h : Reads text ts ss) : nestedTokens? text = some (ts, ss) := by
  obtain ⟨r, read, finished⟩ := h .start ⟨rfl, rfl⟩ rfl
  have bare : r.mode = .bare := by rw [← mode_finish, finished]
  have ended : r.ended? = some ts := by
    rw [Reader.ended?, bare]
    exact congrArg some (congrArg Reader.tokens finished)
  rw [Shell.nestedTokens?, read]
  show r.ended?.map _ = _
  rw [ended]
  rfl

end Reads

/-- Between double quotes the script of a substitution is read as it is without them. -/
theorem Spells.substitution {script : String} {ts : List Token} {ss : List Substitution} (h : Reads script ts ss) :
    Spells ("\x22$(" ++ script ++ ")\x22").toList substituted (ss ++ [⟨true, ts⟩]) := by
  intro n bare still
  have text : ("\x22$(" ++ script ++ ")\x22").toList = '\x22' :: '$' :: '(' :: (script.toList ++ [')', '\x22']) := by
    simp
  let opened : Reader := (n.reader.extend []).into .double
  let outer : Reader := opened.extend [.active '$']
  let last : Reader := outer.extend [.active '(', .active ')']
  have quote : n.step '\x22' = { n with reader := opened } := by
    have inert : n.reader.Inert '\x22' := ⟨by simp [expands], fun _ => by decide⟩
    rw [step_inert still inert, step_bare bare]
    rfl
  have dollar : ({ n with reader := opened } : Nest).step '$' = { n with reader := outer, dollar := true } := by
    rw [step_quoted (n := { n with reader := opened }) still rfl, pass, still]
    rfl
  have parenthesis : ({ n with reader := outer, dollar := true } : Nest).step '(' =
      ⟨.start, outer :: n.around, n.closed, false⟩ := if_pos ⟨rfl, rfl⟩
  -- Inside of the parentheses the script starts afresh, whatever the word around it holds.
  obtain ⟨r, read, finished⟩ := h ⟨.start, outer :: n.around, n.closed, false⟩ ⟨rfl, rfl⟩ rfl
  have inner : r.mode = .bare := by rw [← mode_finish, finished]
  have inside : outer.mode = .double := mode_extend _ _
  have closing : (⟨r, outer :: n.around, n.closed ++ ss, false⟩ : Nest).step ')' =
      ⟨last, n.around, n.closed ++ ss ++ [⟨true, ts⟩], false⟩ := by
    rw [step_closing inner rfl, leave, finished, inside]
    rfl
  have unquote : (⟨last, n.around, n.closed ++ ss ++ [⟨true, ts⟩], false⟩ : Nest).step '\x22' =
      ⟨n.reader.extend substituted, n.around, n.closed ++ ss ++ [⟨true, ts⟩], false⟩ := by
    have quoted : last.mode = .double := (mode_extend _ _).trans inside
    have word : last.into .bare = n.reader.extend substituted := by
      simp only [last, outer, opened, extend_into, extend_extend, into_into]
      exact into_eq ((mode_extend _ _).trans bare)
    rw [step_quoted rfl quoted, pass, Reader.step, quoted, ← word]
    rfl
  rw [text, read_cons, quote, read_cons, dollar, read_cons, parenthesis, read_append, read, read_cons, closing, read_cons,
    unquote, still, List.append_assoc]
  rfl

end Nest

example : nestedTokens? "cd \x22$(ls \x22a )\x22)\x22" =
    some ([.argument "cd", .expansion substituted], [⟨true, [.argument "ls", .argument "a )"]⟩]) := by decide

end Provisioning.Shell
