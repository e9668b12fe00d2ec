import Mathlib.Data.Bool.AllAny
import Mathlib.Tactic.SplitIfs
import Provisioning.Build
import Provisioning.Proofs.Shell.Reading

/-! Banners. Whatever the message is, its banner is one command on one line, which prints the words of the message
between two rules. -/

namespace Provisioning.Shell

/-- The blanks and the line breaks between the words of a message. -/
def isBreak (c : Char) : Bool := c = ' ' || c = '\t' || c = '\n' || c = '\r'

def messageWords (message : String) : List String :=
  ((message.toList.splitOnP isBreak).filter (· ≠ [])).map String.ofList

def rule : String := "---------------"

/-- What the command of a banner prints. -/
def bannerWords (message : String) : List String := "echo" :: rule :: messageWords message ++ [rule]

/-- The characters that no backslash stands before. -/
def unescaped : List Char → List Char
  | [] => []
  | '\\' :: _ :: cs => unescaped cs
  | c :: cs => c :: unescaped cs

/-! ### Characters -/

theorem role_of_inert {c : Char} (inert : c ∉ bannerActive) :
    role c = .plain ∧ c ≠ '\n' ∨ role c = .blank ∨ c = '\n' := by
  simp only [bannerActive, List.mem_cons, List.not_mem_nil, or_false, not_or] at inert
  unfold role
  split_ifs <;> simp_all [operatorChars, patternChars]

theorem role_of_active {c : Char} (active : c ∈ bannerActive) : role c ≠ .plain ∧ role c ≠ .blank ∧ c ≠ '\n' := by
  simp only [bannerActive, List.mem_cons, List.not_mem_nil, or_false] at active
  rcases active with rfl | rfl | rfl | rfl | rfl | rfl | rfl | rfl | rfl | rfl | rfl | rfl | rfl | rfl | rfl | rfl |
    rfl | rfl | rfl | rfl | rfl <;> decide

theorem role_eq_blank_iff {c : Char} : role c = .blank ↔ c = ' ' ∨ c = '\t' := by
  unfold role
  split_ifs <;> simp_all

theorem isBreak_eq_false {c : Char} (word : role c ≠ .blank) (noFeed : c ≠ '\n') (noReturn : c ≠ '\r') :
    isBreak c = false := by
  rw [Ne, role_eq_blank_iff, not_or] at word
  simp [isBreak, word, noFeed, noReturn]

/-- How a character of a message is read. -/
def mark (c : Char) : Mark := if c ∈ bannerActive then .quoted c else .plain c

/-! ### Reading -/

/-- The token of a word, if there is any word. -/
def heldTokens (w : Word) : List Token := if w = [] then [] else [.ofWord w]

/-- The tokens of the words of a message, the first of which goes on with `w`. -/
def wordTokens (w : Word) (cs : List Char) : List Token :=
  (((cs.splitOnP isBreak).map (·.map mark)).modifyHead (w ++ ·)).flatMap heldTokens

theorem modifyHead_nil_append (words : List Word) : words.modifyHead (([] : Word) ++ ·) = words := by
  cases words <;> rfl

theorem wordTokens_nil (w : Word) : wordTokens w [] = heldTokens w := by
  simp [wordTokens, List.splitOnP_nil]

theorem wordTokens_break {c : Char} (h : isBreak c = true) (w : Word) (cs : List Char) :
    wordTokens w (c :: cs) = heldTokens w ++ wordTokens [] cs := by
  rw [wordTokens, List.splitOnP_cons_eq_if_modifyHead, if_pos h, wordTokens, modifyHead_nil_append]
  simp

theorem wordTokens_cons {c : Char} (h : isBreak c = false) (w : Word) (cs : List Char) :
    wordTokens w (c :: cs) = wordTokens (w ++ [mark c]) cs := by
  rw [wordTokens, List.splitOnP_cons_eq_if_modifyHead, h, wordTokens]
  cases cs.splitOnP isBreak <;> simp

/-- Outside of quotes, after the tokens and the marks of a word, if there are any. -/
def held (ts : List Token) (w : Word) : Reader := ⟨ts, if w = [] then .nothing else .word w, .bare⟩

theorem extend_held (ts : List Token) (w : Word) (m : Mark) : (held ts w).extend [m] = held ts (w ++ [m]) := by
  by_cases empty : w = [] <;> simp [held, empty, Reader.extend, Reader.finish]

theorem finish_held (ts : List Token) (w : Word) : (held ts w).finish = held (ts ++ heldTokens w) [] := by
  by_cases empty : w = [] <;> simp [held, heldTokens, empty, Reader.finish]

/-- The words of a message are read one after another. -/
theorem read_escapeBannerChars (cs : List Char) (ts : List Token) (w : Word) :
    ((held ts w).read (escapeBannerChars cs)).finish = held (ts ++ wordTokens w cs) [] := by
  induction cs generalizing ts w with
  | nil => rw [wordTokens_nil, ← finish_held]; rfl
  | cons c cs ih =>
    -- A break ends the word, and the next one begins with what follows.
    have ends {b : Char} (blank : b = ' ' ∨ b = '\t') (h : isBreak c = true) :
        ((held ts w).read (b :: escapeBannerChars cs)).finish = held (ts ++ wordTokens w (c :: cs)) [] := by
      have finished : (held ts w).step b = (held ts w).finish := by
        rw [Reader.step_bare rfl, Reader.bare, role_eq_blank_iff.mpr blank]
      rw [Reader.read_cons, finished, finish_held, ih, wordTokens_break h, List.append_assoc]
    -- Any other character goes on with the word.
    have goes {escaped : List Char} (spelled : Spells escaped [mark c]) (h : isBreak c = false) :
        ((held ts w).read (escaped ++ escapeBannerChars cs)).finish = held (ts ++ wordTokens w (c :: cs)) [] := by
      rw [Reader.read_append, spelled _ rfl, extend_held, ih, wordTokens_cons h]
    rw [escapeBannerChars]
    split
    · next line => exact ends (.inl rfl) (by rcases line with rfl | rfl <;> rfl)
    · next line =>
      obtain ⟨noFeed, noReturn⟩ := not_or.mp line
      split
      · next active =>
        have spelled : Spells ['\\', c] [mark c] := by
          rw [mark, if_pos active]
          exact .escaped noFeed
        exact goes spelled (isBreak_eq_false (role_of_active active).2.1 noFeed noReturn)
      · next inert =>
        rcases role_of_inert inert with ⟨plain, -⟩ | blank | feed
        · have spelled : Spells [c] [mark c] := by
            rw [mark, if_neg inert]
            exact .char plain
          exact goes spelled (isBreak_eq_false (by simp [plain]) noFeed noReturn)
        · have blank := role_eq_blank_iff.mp blank
          exact ends blank (by rcases blank with rfl | rfl <;> rfl)
        · exact absurd feed noFeed

/-- Each word of a message is one argument, its characters being those of the message. -/
theorem wordTokens_eq (message : String) :
    wordTokens [] message.toList = (messageWords message).map .argument := by
  have chars (piece : List Char) : Token.ofWord (piece.map mark) = .argument (String.ofList piece) := by
    have chars : (piece.map mark).map Mark.char? = piece.map some := by
      rw [List.map_map]
      refine List.map_congr_left fun c _ => ?_
      by_cases active : c ∈ bannerActive <;> simp [mark, active, Mark.char?]
    exact ofWord_eq chars
  rw [wordTokens, modifyHead_nil_append, messageWords]
  induction message.toList.splitOnP isBreak with
  | nil => rfl
  | cons piece pieces ih =>
    by_cases empty : piece = [] <;> simp_all [heldTokens]

theorem reads_escapeBanner (message : String) :
    Reads (escapeBanner message) ((messageWords message).map .argument) := by
  have read := read_escapeBannerChars message.toList [] []
  rw [wordTokens_eq] at read
  rw [Reads, escapeBanner, String.toList_ofList]
  exact read

theorem reads_banner (message : String) : Reads (banner message) ((bannerWords message).map .argument) := by
  have command : Reads "echo ---------------" (["echo", rule].map .argument) := by decide
  have last : Reads "---------------" ([rule].map .argument) := by decide
  have words : banner message = "echo ---------------" ++ " " ++ escapeBanner message ++ " " ++ "---------------" := by
    have first : "echo --------------- " = "echo ---------------" ++ " " := by decide
    have second : " ---------------" = " " ++ "---------------" := by decide
    unfold banner
    rw [first, second, ← String.append_assoc]
  have read := (command.blank (reads_escapeBanner message)).blank last
  rw [words, bannerWords]
  simpa using read

/-! ### Escapes -/

theorem mem_bannerActive_iff {c : Char} (noFeed : c ≠ '\n') :
    c ∈ bannerActive ↔ ¬(role c = .plain ∨ role c = .blank) := by
  constructor
  · intro active
    obtain ⟨plain, blank, -⟩ := role_of_active active
    exact not_or.mpr ⟨plain, blank⟩
  · intro special
    by_contra inert
    rcases role_of_inert inert with ⟨plain, -⟩ | blank | feed
    · exact special (.inl plain)
    · exact special (.inr blank)
    · exact noFeed feed

theorem escapeBannerChars_eq (cs : List Char) : escapeBannerChars cs = cs.flatMap fun c =>
    if c = '\n' ∨ c = '\r' then [' '] else if role c = .plain ∨ role c = .blank then [c] else ['\\', c] := by
  induction cs with
  | nil => rfl
  | cons c cs ih =>
    rw [escapeBannerChars, List.flatMap_cons, ← ih]
    split
    · rfl
    · next line =>
      have active := mem_bannerActive_iff (not_or.mp line).1
      by_cases inert : role c = .plain ∨ role c = .blank
      · rw [if_neg (mt active.mp (not_not_intro inert)), if_pos inert]
        rfl
      · rw [if_pos (active.mpr inert), if_neg inert]
        rfl

theorem escapeBannerChars_oneLine {cs : List Char} {c : Char} (h : c ∈ escapeBannerChars cs) :
    c ≠ '\n' ∧ c ≠ '\r' := by
  rw [escapeBannerChars_eq] at h
  obtain ⟨d, -, piece⟩ := List.mem_flatMap.mp h
  split at piece
  · rw [List.mem_singleton.mp piece]
    decide
  · next line =>
    split at piece
    · rw [List.mem_singleton.mp piece]
      exact not_or.mp line
    · rw [List.mem_cons, List.mem_singleton] at piece
      rcases piece with rfl | rfl
      · decide
      · exact not_or.mp line

theorem unescaped_append {cs : List Char} (h : '\\' ∉ cs) (rest : List Char) :
    unescaped (cs ++ rest) = cs ++ unescaped rest := by
  induction cs with
  | nil => rfl
  | cons c cs ih =>
    rw [List.mem_cons, not_or] at h
    obtain ⟨first, later⟩ := h
    rw [List.cons_append, unescaped, ih later]
    · rfl
    · rintro d ds rfl
      exact absurd rfl first

/-- A backslash of the escaped text always has its own character after it, never one of the text after it. -/
theorem mem_unescaped {cs rest : List Char} {c : Char} (h : c ∈ unescaped (escapeBannerChars cs ++ rest)) :
    role c = .plain ∨ role c = .blank ∨ c ∈ unescaped rest := by
  induction cs with
  | nil => exact .inr (.inr h)
  | cons d cs ih =>
    have inert {e : Char} (bare : role e = .plain ∨ role e = .blank)
        (h : c ∈ unescaped (e :: (escapeBannerChars cs ++ rest))) :
        role c = .plain ∨ role c = .blank ∨ c ∈ unescaped rest := by
      have one : '\\' ∉ [e] := by
        rw [List.mem_singleton]
        rintro rfl
        rcases bare with bare | bare <;> cases bare
      have split := unescaped_append one (escapeBannerChars cs ++ rest)
      rw [List.singleton_append] at split
      rw [split] at h
      rcases List.mem_cons.mp h with rfl | h
      · exact bare.imp_right .inl
      · exact ih h
    rw [escapeBannerChars_eq, List.flatMap_cons, ← escapeBannerChars_eq] at h
    split at h
    · exact inert (by decide) h
    · split at h
      · next bare => exact inert bare h
      · exact ih h

/-- The command of a banner is one simple command on one line: `echo` with the words of the message between two
rules. Nothing but letters of a word and blanks stands in it without a backslash in front, and each character that
means something to a shell has one backslash of its own. A build adds that command and no other, as a fragment for its
current directory. -/
theorem banner_one_command (message : String) :
    tokens? (banner message) = some ((bannerWords message).map .argument) ∧
    (∀ c ∈ (banner message).toList, c ≠ '\n' ∧ c ≠ '\r') ∧
    (∀ c ∈ unescaped (banner message).toList, role c = .plain ∨ role c = .blank) ∧
    (escapeBanner message).toList = (message.toList.flatMap fun c =>
      if c = '\n' ∨ c = '\r' then [' '] else if role c = .plain ∨ role c = .blank then [c] else ['\\', c]) ∧
    ∀ b : Build, ∃ fragment, b.banner message = b.add (.shell fragment) ∧ fragment.privileged = false ∧
      Carries fragment.text b.currentDirectory ((bannerWords message).map .argument) := by
  have text : (banner message).toList =
      "echo --------------- ".toList ++ (escapeBannerChars message.toList ++ " ---------------".toList) := by
    have escaped : (escapeBanner message).toList = escapeBannerChars message.toList := String.toList_ofList
    unfold banner
    rw [String.toList_append, String.toList_append, escaped, List.append_assoc]
  have trimmed : Text.trimEnd (banner message).toList = (banner message).toList := by
    have last : Text.trimEnd " ---------------".toList = " ---------------".toList := by decide
    rw [text, ← List.append_assoc, Text.trimEnd_append (by decide) last]
  obtain ⟨tokens, carried⟩ := (reads_banner message).carried trimmed
  refine ⟨tokens, fun c h => ?_, fun c h => ?_, ?_, fun b => ⟨_, rfl, rfl, carried _⟩⟩
  · have first : ∀ c ∈ "echo --------------- ".toList, c ≠ '\n' ∧ c ≠ '\r' := List.all_iff_forall_prop.mp rfl
    have last : ∀ c ∈ " ---------------".toList, c ≠ '\n' ∧ c ≠ '\r' := List.all_iff_forall_prop.mp rfl
    rw [text, List.mem_append, List.mem_append] at h
    rcases h with lead | inside | trail
    · exact first c lead
    · exact escapeBannerChars_oneLine inside
    · exact last c trail
  · have first : ∀ c ∈ "echo --------------- ".toList, role c = .plain ∨ role c = .blank :=
      List.all_iff_forall_prop.mp rfl
    have last : ∀ c ∈ unescaped " ---------------".toList, role c = .plain ∨ role c = .blank :=
      List.all_iff_forall_prop.mp rfl
    rw [text, unescaped_append (by decide), List.mem_append] at h
    rcases h with lead | later
    · exact first c lead
    · rcases mem_unescaped later with plain | blank | trail
      · exact .inl plain
      · exact .inr blank
      · exact last c trail
  · rw [escapeBanner, String.toList_ofList, escapeBannerChars_eq]

end Provisioning.Shell
