import Mathlib.Tactic.ByContra
import Mathlib.Tactic.SplitIfs
import Provisioning.Proofs.Shell.Reader
import Provisioning.Proofs.Shell.Script

/-! Texts that a shell reads as certain tokens whatever was read before them, and how they are put together. -/

namespace Provisioning.Shell

/-! ### Steps -/

namespace Reader

theorem read_append (r : Reader) (a b : List Char) : r.read (a ++ b) = (r.read a).read b := List.foldl_append

theorem read_cons (r : Reader) (c : Char) (cs : List Char) : r.read (c :: cs) = (r.step c).read cs := rfl

/-- The reader with tokens in front of its own. -/
def after (ts : List Token) (r : Reader) : Reader := { r with tokens := ts ++ r.tokens }

theorem finish_after (ts : List Token) (r : Reader) : (r.after ts).finish = r.finish.after ts := by
  obtain ⟨_, _ | _ | _, _⟩ := r <;> simp [after, finish]

theorem add_after (ts : List Token) (r : Reader) (t : Token) : (r.after ts).add t = (r.add t).after ts := by
  simp [after, add]

theorem extend_after (ts : List Token) (r : Reader) (marks : Word) :
    (r.after ts).extend marks = (r.extend marks).after ts := by
  obtain ⟨_, _ | _ | _, _⟩ := r <;> simp [after, extend, finish]

theorem operate_after (ts : List Token) (r : Reader) (c : Char) :
    (r.after ts).operate c = (r.operate c).after ts := by
  obtain ⟨tokens, _ | w | o, mode⟩ := r
  · rfl
  · simp only [operate, after, finish]
    split <;> simp
  · simp only [operate, after, finish]
    split <;> simp [into]

theorem into_after (ts : List Token) (r : Reader) (m : Mode) : (r.after ts).into m = (r.into m).after ts := rfl

theorem bare_after (ts : List Token) (r : Reader) (c : Char) : (r.after ts).bare c = (r.bare c).after ts := by
  simp only [bare]
  cases role c with
  | comment => obtain ⟨_, _ | _ | _, _⟩ := r <;> simp [after, extend, finish, into]
  | _ => simp only [extend_after, finish_after, add_after, operate_after, into_after]

/-- No step looks at the tokens that are read already. -/
theorem step_after (ts : List Token) (r : Reader) (c : Char) : (r.after ts).step c = (r.step c).after ts := by
  have mode : (r.after ts).mode = r.mode := rfl
  rw [step, step, mode]
  cases r.mode with
  | double => cases role c <;> simp only [extend_after, into_after]
  | doubleEscaped => cases role c <;> simp only [extend_after, into_after]
  | _ => simp only [bare_after, extend_after, into_after, apply_ite (after ts)]

theorem read_after (ts : List Token) (r : Reader) (cs : List Char) :
    (r.after ts).read cs = (r.read cs).after ts := by
  induction cs generalizing r with
  | nil => rfl
  | cons c cs ih => rw [read_cons, step_after, ih, read_cons]

theorem ended?_after (ts : List Token) (r : Reader) : (r.after ts).ended? = r.ended?.map (ts ++ ·) := by
  have finished := congrArg Reader.tokens (finish_after ts r)
  obtain ⟨tokens, pending, mode⟩ := r
  cases mode <;> simp [ended?, after] at finished ⊢ <;> exact finished

theorem into_eq {r : Reader} {m : Mode} (h : r.mode = m) : r.into m = r := by rw [into, ← h]

theorem into_into (r : Reader) (m m' : Mode) : (r.into m).into m' = r.into m' := rfl

theorem extend_into (r : Reader) (m : Mode) (w : Word) : (r.into m).extend w = (r.extend w).into m := by
  obtain ⟨_, _ | _ | _, _⟩ := r <;> rfl

theorem mode_finish (r : Reader) : r.finish.mode = r.mode := by obtain ⟨_, _ | _ | _, _⟩ := r <;> rfl

theorem mode_extend (r : Reader) (w : Word) : (r.extend w).mode = r.mode := by
  obtain ⟨_, _ | _ | _, _⟩ := r <;> rfl

theorem extend_extend (r : Reader) (w w' : Word) : (r.extend w).extend w' = r.extend (w ++ w') := by
  obtain ⟨_, _ | _ | _, _⟩ := r <;> simp [extend, finish]

theorem step_bare {r : Reader} (h : r.mode = .bare) (c : Char) : r.step c = r.bare c := by rw [step, h]

end Reader

open Reader

/-! ### Words -/

/-- Outside of quotes the characters go on with a word by `w`, or begin one with it. -/
def Spells (cs : List Char) (w : Word) : Prop := ∀ r : Reader, r.mode = .bare → r.read cs = r.extend w

namespace Spells

theorem append {cs cs' : List Char} {w w' : Word} (h : Spells cs w) (h' : Spells cs' w') :
    Spells (cs ++ cs') (w ++ w') := by
  intro r bare
  rw [read_append, h r bare, h' _ ((mode_extend r w).trans bare), extend_extend]

theorem each {f : Char → List Char} {g : Char → Mark} {cs : List Char} (nonempty : cs ≠ [])
    (h : ∀ c ∈ cs, Spells (f c) [g c]) : Spells (cs.flatMap f) (cs.map g) := by
  induction cs with
  | nil => exact absurd rfl nonempty
  | cons c cs ih =>
    have first := h c List.mem_cons_self
    rw [List.flatMap_cons]
    cases cs with
    | nil => simpa using first
    | cons d cs => exact first.append (ih (List.cons_ne_nil d cs) fun c hc => h c (List.mem_cons_of_mem _ hc))

theorem char {c : Char} (h : role c = .plain) : Spells [c] [.plain c] := by
  intro r bare
  show r.step c = _
  rw [step_bare bare, Reader.bare, h]

theorem active {c : Char} (h : role c = .pattern) : Spells [c] [.active c] := by
  intro r bare
  show r.step c = _
  rw [step_bare bare, Reader.bare, h]

theorem escaped {c : Char} (h : c ≠ '\n') : Spells ['\\', c] [.quoted c] := by
  intro r bare
  have escape : r.step '\\' = r.into .escaped := step_bare bare _
  show (r.step '\\').step c = _
  rw [escape, step]
  dsimp only [into]
  rw [if_neg h, ← into, ← into, extend_into, into_into, into_eq ((mode_extend r _).trans bare)]

theorem plain {cs : List Char} (nonempty : cs ≠ []) (h : ∀ c ∈ cs, role c = .plain) :
    Spells cs (cs.map .plain) := by
  have spelled := each (f := fun c => [c]) nonempty fun c hc => char (h c hc)
  rwa [List.flatMap_singleton'] at spelled

end Spells

theorem mem_quoteActive_iff {c : Char} : c ∈ quoteActive ↔
    role c = .backslash ∨ role c = .doubleQuote ∨ role c = .expansion := by
  constructor
  · intro h
    simp only [quoteActive, List.mem_cons, List.not_mem_nil, or_false] at h
    rcases h with rfl | rfl | rfl | rfl <;> decide
  · intro h
    by_contra other
    obtain ⟨backslash, quote, dollar, grave⟩ : c ≠ '\\' ∧ c ≠ '\x22' ∧ c ≠ '$' ∧ c ≠ '\x60' := by
      simpa [quoteActive] using other
    revert h
    simp only [role, if_neg backslash, if_neg quote, dollar, grave, or_self, if_false]
    split_ifs <;> simp

theorem step_inert {r : Reader} (h : r.mode = .double) {c : Char} (inert : c ∉ quoteActive) :
    r.step c = r.extend [.quoted c] := by
  rw [mem_quoteActive_iff, not_or, not_or] at inert
  obtain ⟨backslash, quote, expansion⟩ := inert
  rw [step, h]
  cases kind : role c <;> first | rfl | contradiction

theorem step_backslash {r : Reader} (h : r.mode = .double) : r.step '\\' = r.into .doubleEscaped := by
  rw [step, h]
  rfl

theorem step_doubleEscaped {r : Reader} (h : r.mode = .double) {c : Char} (escaped : c ∈ quoteActive) :
    (r.into .doubleEscaped).step c = r.extend [.quoted c] := by
  have back : ((r.into .doubleEscaped).extend [.quoted c]).into .double = r.extend [.quoted c] := by
    rw [extend_into, into_into, into_eq ((mode_extend r _).trans h)]
  rw [← back, step, into]
  rcases mem_quoteActive_iff.mp escaped with role | role | role <;> rw [role]

theorem readOut_cons {r r' : Reader} {c : Char} (h : r.step c = r') (inside : r'.mode ≠ .bare) (cs : List Char) :
    r.readOut (c :: cs) = r'.readOut cs := by
  rw [readOut, h, if_neg inside]

theorem read_of_readOut {r r' : Reader} {cs rest : List Char} (h : r.readOut cs = some (r', rest)) :
    r.read cs = r'.read rest := by
  induction cs generalizing r with
  | nil => cases h
  | cons c cs ih =>
    rw [readOut] at h
    rw [read_cons]
    split at h
    · obtain ⟨rfl, rfl⟩ := Prod.mk.inj (Option.some.inj h)
      rfl
    · exact ih h

/-- What is escaped for double quotes goes on with the word between them, character by character, up to the first
quote that is not escaped. -/
theorem readOut_escapeQuotedChars {r : Reader} (h : r.mode = .double) (cs rest : List Char) :
    (r.extend []).readOut (escapeQuotedChars cs ++ '\x22' :: rest) =
      some ((r.extend (cs.map .quoted)).into .bare, rest) := by
  induction cs generalizing r with
  | nil =>
    have closed : (r.extend []).step '\x22' = (r.extend []).into .bare := by
      rw [step, mode_extend, h]
      rfl
    rw [escapeQuotedChars, List.nil_append, readOut, closed]
    exact if_pos rfl
  | cons c cs ih =>
    have inside : (r.extend []).mode = .double := (mode_extend r []).trans h
    have extended : (r.extend [.quoted c]).mode = .double := (mode_extend r _).trans h
    have stays : (r.extend [.quoted c]).mode ≠ .bare := by
      rw [extended]
      exact nofun
    have later := ih extended
    rw [extend_extend, extend_extend] at later
    rw [escapeQuotedChars]
    split
    · next active =>
      have escaped := step_doubleEscaped inside active
      rw [extend_extend] at escaped
      rw [List.cons_append, readOut_cons (step_backslash inside) nofun, List.cons_append,
        readOut_cons escaped stays]
      exact later
    · next inert =>
      have read := step_inert inside inert
      rw [extend_extend] at read
      rw [List.cons_append, readOut_cons read stays]
      exact later

/-- A quoted word ends with its closing quote, whatever follows. -/
theorem readOut_doubleQuote {r : Reader} (bare : r.mode = .bare) (s : String) (rest : List Char) :
    r.readOut ((doubleQuote s).toList ++ rest) = some (r.extend (s.toList.map .quoted), rest) := by
  have opened : r.step '\x22' = (r.into .double).extend [] := by
    rw [step_bare bare, extend_into]
    rfl
  have inside : ((r.into .double).extend []).mode ≠ .bare := by
    rw [mode_extend]
    exact nofun
  have closed : ((r.into .double).extend (s.toList.map .quoted)).into .bare = r.extend (s.toList.map .quoted) := by
    rw [extend_into, into_into, into_eq ((mode_extend r _).trans bare)]
  have text : (doubleQuote s).toList ++ rest = '\x22' :: (escapeQuotedChars s.toList ++ '\x22' :: rest) := by
    simp [doubleQuote, doubleQuoteChars]
  rw [text, readOut_cons opened inside, readOut_escapeQuotedChars rfl, closed]

theorem Spells.doubleQuote (s : String) : Spells (Shell.doubleQuote s).toList (s.toList.map .quoted) := by
  intro r bare
  have out := readOut_doubleQuote bare s []
  rw [List.append_nil] at out
  exact read_of_readOut out

/-- Between single quotes every character but the quote stands for itself. -/
theorem Spells.singleQuote {cs : List Char} (h : '\x27' ∉ cs) :
    Spells ('\x27' :: (cs ++ ['\x27'])) (cs.map .quoted) := by
  intro r bare
  have inside (w : Word) : ((r.into .single).extend w).read cs = (r.into .single).extend (w ++ cs.map .quoted) := by
    induction cs generalizing w with
    | nil => rw [List.map_nil, List.append_nil]; rfl
    | cons c cs ih =>
      rw [List.mem_cons, not_or] at h
      have step : ((r.into .single).extend w).step c = (r.into .single).extend (w ++ [.quoted c]) := by
        rw [Reader.step, mode_extend]
        show (if c = '\x27' then _ else _) = _
        rw [if_neg (Ne.symm h.1), extend_extend]
      rw [read_cons, step, ih h.2, List.append_assoc]
      rfl
  have opened : r.step '\x27' = (r.into .single).extend [] := by
    rw [step_bare bare, extend_into]
    rfl
  have closed : ((r.into .single).extend (cs.map .quoted)).step '\x27' = r.extend (cs.map .quoted) := by
    rw [extend_into, Reader.step]
    show ((r.extend _).into .single).into .bare = _
    rw [into_into, into_eq ((mode_extend r _).trans bare)]
  rw [read_cons, opened, read_append, inside, List.nil_append]
  exact closed

/-- A character of a path that a shell takes as it is, or that is escaped. -/
def Ordinary (c : Char) : Prop := role c = .plain ∨ c ∈ pathActive

instance (c : Char) : Decidable (Ordinary c) := inferInstanceAs (Decidable (_ ∨ _))

theorem escapePathChars_cons {c : Char} (h : c ≠ '\\') (cs : List Char) :
    escapePathChars (c :: cs) = (if c ∈ pathActive then ['\\', c] else [c]) ++ escapePathChars cs := by
  rw [escapePathChars]
  · split <;> rfl
  · simp [h]
  · simp [h]

theorem escapePathChars_of_ordinary {cs : List Char} (h : ∀ c ∈ cs, Ordinary c) :
    escapePathChars cs = cs.flatMap fun c => if c ∈ pathActive then ['\\', c] else [c] := by
  induction cs with
  | nil => rfl
  | cons c cs ih =>
    have inert : c ≠ '\\' := by
      rintro rfl
      rcases h _ List.mem_cons_self with plain | escaped
      · cases plain
      · revert escaped
        decide
    rw [escapePathChars_cons inert, ih fun c hc => h c (List.mem_cons_of_mem _ hc), List.flatMap_cons]

/-- The word that is written as a path token. -/
def pathWord (cs : List Char) : Word := cs.map fun c => if c ∈ pathActive then .quoted c else .plain c

theorem toList_escapePath (s : String) : (escapePath s).toList = escapePathChars s.toList := String.toList_ofList

theorem Spells.escapePath {cs : List Char} (nonempty : cs ≠ []) (h : ∀ c ∈ cs, Ordinary c) :
    Spells (escapePathChars cs) (pathWord cs) := by
  rw [escapePathChars_of_ordinary h]
  refine each nonempty fun c hc => ?_
  by_cases active : c ∈ pathActive
  · have noFeed : c ≠ '\n' := by
      rintro rfl
      revert active
      decide
    rw [if_pos active, if_pos active]
    exact escaped noFeed
  · rw [if_neg active, if_neg active]
    exact char ((h c hc).resolve_right active)

/-! ### Texts -/

/-- A word of characters that stand for themselves is an argument. -/
theorem ofWord_eq {w : Word} {cs : List Char} (h : w.map Mark.char? = cs.map some) :
    Token.ofWord w = .argument (String.ofList cs) := by
  have chars : w.mapM Mark.char? = some cs := by
    induction w generalizing cs with
    | nil => simp_all
    | cons m w ih =>
      cases cs with
      | nil => simp at h
      | cons c cs =>
        obtain ⟨first, later⟩ := List.cons.inj h
        rw [List.mapM_cons, first, ih later]
        rfl
  have whole (m : Mark) (active : m.char? = none) : w ≠ [m] := by
    rintro rfl
    cases cs <;> simp [active] at h
  rw [Token.ofWord, Word.text?, if_neg (whole _ rfl), if_neg (whole _ rfl), chars]
  rfl

theorem ofWord_quoted (s : String) : Token.ofWord (s.toList.map .quoted) = .argument s := by
  have chars : (s.toList.map Mark.quoted).map Mark.char? = s.toList.map some := by simp [Mark.char?]
  rw [ofWord_eq chars, String.ofList_toList]

theorem char?_plain (cs : List Char) : (cs.map Mark.plain).map Mark.char? = cs.map some := by simp [Mark.char?]

theorem char?_pathWord (cs : List Char) : (pathWord cs).map Mark.char? = cs.map some := by
  rw [pathWord, List.map_map]
  refine List.map_congr_left fun c _ => ?_
  by_cases active : c ∈ pathActive <;> simp [active, Mark.char?]

theorem ofWord_plain (s : String) : Token.ofWord (s.toList.map .plain) = .argument s := by
  rw [ofWord_eq (char?_plain s.toList), String.ofList_toList]

/-- A word is expanded as soon as one of its characters is. -/
theorem ofWord_active {w : Word} {c : Char} (active : .active c ∈ w) (long : 1 < w.length) :
    Token.ofWord w = .expansion w := by
  have none : w.mapM Mark.char? = none := by
    clear long
    induction w with
    | nil => cases active
    | cons m w ih =>
      rw [List.mapM_cons]
      rcases List.mem_cons.mp active with rfl | later
      · rfl
      · rw [ih later]
        cases m.char? <;> rfl
  have whole (m : Mark) : w ≠ [m] := by
    rintro rfl
    exact absurd long (Nat.lt_irrefl 1)
  rw [Token.ofWord, Word.text?, if_neg (whole _), if_neg (whole _), none]
  rfl

/-- The text is read as the tokens, and at its end nothing is open but the last of them. -/
def Reads (text : String) (ts : List Token) : Prop :=
  (start.read text.toList).finish = ⟨ts, .nothing, .bare⟩

instance (text : String) (ts : List Token) : Decidable (Reads text ts) :=
  inferInstanceAs (Decidable (_ = _))

namespace Reads

variable {text text' : String} {ts us : List Token}

theorem mode (h : Reads text ts) : (start.read text.toList).mode = .bare := by
  rw [← mode_finish, h]

theorem blank (h : Reads text ts) (h' : Reads text' us) : Reads (text ++ " " ++ text') (ts ++ us) := by
  have before : (start.read text.toList).step ' ' = start.after ts := by
    rw [step_bare h.mode]
    show (start.read text.toList).finish = _
    rw [h]
    simp [after, start]
  have split : (text ++ " " ++ text').toList = text.toList ++ ' ' :: text'.toList := by simp
  rw [Reads, split, read_append, read_cons, before, read_after, finish_after, h']
  rfl

theorem lineFeed (h : Reads text ts) (h' : Reads text' us) :
    Reads (text ++ "\n" ++ text') (ts ++ .lineEnd :: us) := by
  have before : (start.read text.toList).step '\n' = start.after (ts ++ [.lineEnd]) := by
    rw [step_bare h.mode]
    show (start.read text.toList).finish.add _ = _
    rw [h]
    simp [after, start, add]
  have split : (text ++ "\n" ++ text').toList = text.toList ++ '\n' :: text'.toList := by simp
  rw [Reads, split, read_append, read_cons, before, read_after, finish_after, h']
  simp [after]

theorem tokens (h : Reads text ts) : tokens? text = some ts := by
  rw [tokens?, ended?, h.mode]
  dsimp only
  rw [h]

theorem word {w : Word} (h : Spells text.toList w) : Reads text [.ofWord w] := by
  rw [Reads, h start rfl]
  rfl

theorem doubleQuote (s : String) : Reads (Shell.doubleQuote s) [.argument s] := by
  have read := word (Spells.doubleQuote s)
  rwa [ofWord_quoted] at read

theorem singleQuote {s : String} (h : '\x27' ∉ s.toList) : Reads ("\x27" ++ s ++ "\x27") [.argument s] := by
  have parts : ("\x27" ++ s ++ "\x27").toList = '\x27' :: (s.toList ++ ['\x27']) := by simp
  have spelled := Spells.singleQuote h
  rw [← parts] at spelled
  have read := word spelled
  rwa [ofWord_quoted] at read

theorem plain {s : String} (nonempty : s ≠ "") (h : ∀ c ∈ s.toList, role c = .plain) : Reads s [.argument s] := by
  have read := word (Spells.plain (mt String.toList_eq_nil_iff.mp nonempty) h)
  rwa [ofWord_plain] at read

theorem escapePath {s : String} (nonempty : s ≠ "") (h : ∀ c ∈ s.toList, Ordinary c) :
    Reads (Shell.escapePath s) [.argument s] := by
  have spelled := Spells.escapePath (mt String.toList_eq_nil_iff.mp nonempty) h
  rw [← toList_escapePath] at spelled
  have read := word spelled
  rwa [ofWord_eq (char?_pathWord s.toList), String.ofList_toList] at read

end Reads

/-! ### Fragments -/

/-- The change into a directory. -/
def opening (directory : String) : String := "set -e\npushd " ++ escapePath directory ++ " > /dev/null\n"

/-- The change back, as it is read. -/
def closing : List Token :=
  [.argument "popd", .operator ">", .argument "/dev/null", .lineEnd]

/-- In the directory the text does what the tokens say: however the change into the directory is read, the tokens
stand between it and the change back. -/
def Carries (text directory : String) (ts : List Token) : Prop :=
  ∀ lead, tokens? (opening directory) = some lead → tokens? text = some (lead ++ ts ++ .lineEnd :: closing)

namespace Reader

/-- Between two lines. -/
def AtRest (r : Reader) : Prop := r.pending = .nothing ∧ r.mode = .bare

theorem AtRest.eq_after {r : Reader} (h : r.AtRest) : r = start.after r.tokens := by
  obtain ⟨tokens, pending, mode⟩ := r
  obtain ⟨rfl, rfl⟩ := h
  simp [after, start]

theorem AtRest.ended? {r : Reader} (h : r.AtRest) : r.ended? = some r.tokens := by
  rw [Reader.ended?, h.2]
  show some r.finish.tokens = _
  rw [finish, h.1]

theorem bare_lineFeed {r : Reader} (h : r.mode = .bare) : (r.bare '\n').AtRest := by
  obtain ⟨_, _ | _ | _, _⟩ := r <;> exact ⟨rfl, h⟩

/-- After a letter nothing is escaped. -/
theorem step_letter (r : Reader) : (r.step 'l').mode ≠ .escaped ∧ (r.step 'l').mode ≠ .doubleEscaped := by
  rw [step]
  cases mode : r.mode with
  | bare =>
    show (r.extend [.plain 'l']).mode ≠ _ ∧ (r.extend [.plain 'l']).mode ≠ _
    rw [mode_extend, mode]
    exact ⟨nofun, nofun⟩
  | double =>
    show (r.extend [.quoted 'l']).mode ≠ _ ∧ (r.extend [.quoted 'l']).mode ≠ _
    rw [mode_extend, mode]
    exact ⟨nofun, nofun⟩
  | single =>
    show (r.extend [.quoted 'l']).mode ≠ _ ∧ (r.extend [.quoted 'l']).mode ≠ _
    rw [mode_extend, mode]
    exact ⟨nofun, nofun⟩
  | comment => simp [mode]
  | lost => simp [mode]
  | _ => exact ⟨nofun, nofun⟩

/-- A line that ends in a letter is over at its end, unless quotes or a here-document go on. -/
theorem atRest_or_open (r : Reader) : (r.read ['l', '\n']).AtRest ∨ (r.read ['l', '\n']).ended? = none := by
  have letters : r.read ['l', '\n'] = (r.step 'l').step '\n' := rfl
  obtain ⟨escaped, doubleEscaped⟩ := r.step_letter
  rw [letters, step]
  generalize r.step 'l' = r at escaped doubleEscaped ⊢
  cases mode : r.mode with
  | bare => exact .inl (bare_lineFeed mode)
  | comment => exact .inl (bare_lineFeed rfl)
  | escaped => exact absurd mode escaped
  | doubleEscaped => exact absurd mode doubleEscaped
  | double =>
    right
    show (r.extend [.quoted '\n']).ended? = none
    rw [Reader.ended?, mode_extend, mode]
  | single =>
    right
    show (r.extend [.quoted '\n']).ended? = none
    rw [Reader.ended?, mode_extend, mode]
  | lost =>
    right
    show r.ended? = none
    rw [Reader.ended?, mode]

end Reader

theorem read_opening {directory : String} {lead : List Token} (h : tokens? (opening directory) = some lead) :
    start.read (opening directory).toList = start.after lead := by
  have lines : (opening directory).toList =
      ("set -e\npushd " ++ escapePath directory ++ " > /dev/nul").toList ++ ['l', '\n'] := by
    unfold opening
    simp
  rw [tokens?, lines, read_append] at h
  rw [lines, read_append]
  rcases atRest_or_open (start.read ("set -e\npushd " ++ escapePath directory ++ " > /dev/nul").toList) with
    rest | unfinished
  · rw [rest.ended?] at h
    rw [rest.eq_after, Option.some.inj h]
  · rw [unfinished] at h
    cases h

theorem tokens?_opening {directory : String} (nonempty : directory ≠ "") (h : ∀ c ∈ directory.toList, Ordinary c) :
    tokens? (opening directory) = some [.argument "set", .argument "-e", .lineEnd, .argument "pushd",
      .argument directory, .operator ">", .argument "/dev/null", .lineEnd] := by
  have first : Reads "set -e\npushd" [.argument "set", .argument "-e", .lineEnd, .argument "pushd"] := by decide
  have last : Reads "> /dev/null\n" [.operator ">", .argument "/dev/null", .lineEnd] := by decide
  have whole : opening directory = "set -e\npushd" ++ " " ++ escapePath directory ++ " " ++ "> /dev/null\n" := by
    have lead : "set -e\npushd " = "set -e\npushd" ++ " " := rfl
    have trail : " > /dev/null\n" = " " ++ "> /dev/null\n" := rfl
    unfold opening
    rw [lead, trail]
    simp only [String.append_assoc]
  rw [whole]
  exact ((first.blank (.escapePath nonempty h)).blank last).tokens

theorem carries_inDirectory {code : String} {ts : List Token} (h : Reads code ts)
    (trimmed : Text.trimEnd code.toList = code.toList) (directory : String) :
    Carries (inDirectory code directory) directory ts := by
  intro lead header
  have closed : Reads "popd > /dev/null\n" closing := by decide
  have whole : inDirectory code directory = opening directory ++ (code ++ "\n" ++ "popd > /dev/null\n") := by
    have back : "\npopd > /dev/null\n" = "\n" ++ "popd > /dev/null\n" := rfl
    unfold inDirectory opening
    rw [trimmed, String.ofList_toList, back]
    simp only [String.append_assoc]
  have read := (h.lineFeed closed).tokens
  rw [tokens?] at read
  rw [whole, tokens?, String.toList_append, read_append, read_opening header, read_after, ended?_after, read]
  simp

/-- A script whose end is no blank is read as the same tokens alone and in a directory. -/
theorem Reads.carried {code : String} {ts : List Token} (h : Reads code ts)
    (trimmed : Text.trimEnd code.toList = code.toList) :
    tokens? code = some ts ∧ ∀ directory, Carries (inDirectory code directory) directory ts :=
  ⟨h.tokens, carries_inDirectory h trimmed⟩

end Provisioning.Shell
