import Mathlib.Data.List.TakeWhile
import Provisioning.Proofs.Shell.Reading

/-! Path tokens. A backslash and the character after it are a pair, and escaping makes a pair of every blank and
parenthesis that is in none. Nothing else of the token changes, and it means what it meant. -/

namespace Provisioning.Shell

/-! ### Pairs -/

/-- A character alone, or one with a backslash in front that keeps it as it is. -/
inductive Piece where
  | alone (c : Char)
  | kept (c : Char)
deriving DecidableEq, Repr

namespace Piece

def written : Piece → List Char
  | .alone c => [c]
  | .kept c => ['\\', c]

def meaning : Piece → Char
  | .alone c => c
  | .kept c => c

def escaped : Piece → Piece
  | .alone c => if c ∈ pathActive then .kept c else .alone c
  | .kept c => .kept c

end Piece

/-- The pieces of a text. A backslash at its end has nothing to keep. -/
def pieces : List Char → List Piece
  | [] => []
  | ['\\'] => [.alone '\\']
  | '\\' :: c :: cs => .kept c :: pieces cs
  | c :: cs => .alone c :: pieces cs

/-- What a token stands for. -/
def meaning (token : String) : String := String.ofList ((pieces token.toList).map Piece.meaning)

/-- Every blank and every parenthesis is the second half of a pair. -/
def Guarded (token : String) : Prop := ∀ c ∈ pathActive, .alone c ∉ pieces token.toList

/-- The second text is the first one with backslashes inserted. -/
inductive Backslashed : List Char → List Char → Prop
  | nil : Backslashed [] []
  | same (c : Char) {cs ds : List Char} : Backslashed cs ds → Backslashed (c :: cs) (c :: ds)
  | insert {cs ds : List Char} : Backslashed cs ds → Backslashed cs ('\\' :: ds)

/-- A character right after the text would be the second half of a pair. -/
def Escapes (cs : List Char) : Prop := (cs.reverse.takeWhile (· = '\\')).length % 2 = 1

instance (cs : List Char) : Decidable (Escapes cs) := inferInstanceAs (Decidable (_ = _))

/-! ### Pieces -/

theorem ne_backslash_of_alone {c : Char} {cs : List Char} (last : c = '\\' → cs = [] → False)
    (pair : ∀ d ds, c = '\\' → cs = d :: ds → False) : c ≠ '\\' := by
  intro h
  cases cs with
  | nil => exact last h rfl
  | cons d ds => exact pair d ds h rfl

theorem pieces_cons {c : Char} (h : c ≠ '\\') (cs : List Char) : pieces (c :: cs) = .alone c :: pieces cs := by
  rw [pieces] <;> simp [h]

theorem flatMap_written (cs : List Char) : (pieces cs).flatMap Piece.written = cs := by
  fun_induction pieces cs with
  | case1 => rfl
  | case2 => rfl
  | case3 c cs ih => simp [Piece.written, ih]
  | case4 c cs _ _ ih => simp [Piece.written, ih]

/-- Backslashes before another character have nothing to do with those at the end. -/
theorem escapes_append {c : Char} (h : c ≠ '\\') (lead rest : List Char) :
    Escapes (lead ++ c :: rest) ↔ Escapes rest := by
  have stops : (rest.reverse ++ c :: lead.reverse).takeWhile (· = '\\') = rest.reverse.takeWhile (· = '\\') := by
    rw [List.takeWhile_append, List.takeWhile_cons_of_neg (by simp [h]), List.append_nil]
    split
    · next all => exact (List.Sublist.eq_of_length (List.takeWhile_sublist _) all).symm
    · rfl
  simp [Escapes, stops]

theorem escapes_cons {c : Char} (h : c ≠ '\\') (cs : List Char) : Escapes (c :: cs) ↔ Escapes cs :=
  escapes_append h [] cs

/-- A pair in front makes no difference, even one of two backslashes. -/
theorem escapes_pair (c : Char) (cs : List Char) : Escapes ('\\' :: c :: cs) ↔ Escapes cs := by
  by_cases h : c = '\\'
  · subst h
    rw [Escapes, Escapes, List.reverse_cons, List.reverse_cons, List.append_assoc, List.takeWhile_append]
    split
    · next all =>
      rw [all]
      simp
    · rfl
  · exact escapes_append h ['\\'] cs

/-- A character other than a backslash is alone if an even number of backslashes stands before it. -/
theorem mem_pieces_iff {c : Char} (h : c ≠ '\\') (cs : List Char) :
    .alone c ∈ pieces cs ↔ ∃ lead rest, cs = lead ++ c :: rest ∧ ¬Escapes lead := by
  fun_induction pieces cs with
  | case1 => simp
  | case2 =>
    constructor
    · intro mem
      simp [h] at mem
    · rintro ⟨lead, rest, eq, -⟩
      have mem : c ∈ ['\\'] := eq ▸ by simp
      exact absurd (List.mem_singleton.mp mem) h
  | case3 d cs ih =>
    rw [List.mem_cons, ih]
    constructor
    · rintro (eq | ⟨lead, rest, rfl, even⟩)
      · cases eq
      · exact ⟨'\\' :: d :: lead, rest, rfl, mt (escapes_pair d lead).mp even⟩
    · rintro ⟨lead, rest, eq, even⟩
      rcases lead with _ | ⟨_, _ | ⟨_, lead⟩⟩
      · exact absurd (List.cons.inj eq).1.symm h
      · obtain ⟨rfl, -⟩ := List.cons.inj eq
        exact absurd (by decide) even
      · simp only [List.cons_append, List.cons.injEq] at eq
        obtain ⟨rfl, rfl, rfl⟩ := eq
        exact .inr ⟨lead, rest, rfl, mt (escapes_pair _ lead).mpr even⟩
  | case4 d cs last pair ih =>
    have other := ne_backslash_of_alone last pair
    rw [List.mem_cons, ih]
    constructor
    · rintro (eq | ⟨lead, rest, rfl, even⟩)
      · obtain rfl := Piece.alone.inj eq
        exact ⟨[], cs, rfl, by decide⟩
      · exact ⟨d :: lead, rest, rfl, mt (escapes_cons other lead).mp even⟩
    · rintro ⟨lead, rest, eq, even⟩
      cases lead with
      | nil => exact .inl (congrArg Piece.alone (List.cons.inj eq).1.symm)
      | cons e lead =>
        obtain ⟨rfl, rfl⟩ := List.cons.inj eq
        exact .inr ⟨lead, rest, rfl, mt (escapes_cons other lead).mpr even⟩

/-! ### Escaping piece by piece -/

namespace Piece

theorem escaped_escaped (p : Piece) : p.escaped.escaped = p.escaped := by
  cases p with
  | alone c => by_cases h : c ∈ pathActive <;> simp [escaped, h]
  | kept c => rfl

theorem meaning_escaped (p : Piece) : p.escaped.meaning = p.meaning := by
  cases p with
  | alone c => by_cases h : c ∈ pathActive <;> simp [escaped, meaning, h]
  | kept c => rfl

/-- A piece stays as it is unless it is an active character alone. -/
theorem escaped_eq_self_iff (p : Piece) : p.escaped = p ↔ ∀ c ∈ pathActive, p ≠ .alone c := by
  cases p with
  | alone c =>
    by_cases h : c ∈ pathActive
    · simp [escaped, h]
    · refine ⟨fun _ d active eq => ?_, fun _ => by simp [escaped, h]⟩
      obtain rfl := Piece.alone.inj eq
      exact h active
  | kept c => simp [escaped]

theorem backslashed (p : Piece) {cs ds : List Char} (h : Backslashed cs ds) :
    Backslashed (p.written ++ cs) (p.escaped.written ++ ds) := by
  cases p with
  | alone c =>
    by_cases active : c ∈ pathActive
    · simpa [written, escaped, active] using (h.same c).insert
    · simpa [written, escaped, active] using h.same c
  | kept c => exact (h.same c).same '\\'

end Piece

theorem escapePathChars_eq (cs : List Char) :
    escapePathChars cs = ((pieces cs).map Piece.escaped).flatMap Piece.written := by
  fun_induction pieces cs with
  | case1 => rfl
  | case2 => rfl
  | case3 c cs ih => simp [escapePathChars, Piece.written, Piece.escaped, ih]
  | case4 c cs last pair ih =>
    rw [escapePathChars_cons (ne_backslash_of_alone last pair), ih, List.map_cons, List.flatMap_cons, Piece.escaped]
    split <;> rfl

/-- The pieces of an escaped token are those of the token, escaped. -/
theorem pieces_escapePathChars (cs : List Char) : pieces (escapePathChars cs) = (pieces cs).map Piece.escaped := by
  fun_induction pieces cs with
  | case1 => rfl
  | case2 => rfl
  | case3 c cs ih => rw [escapePathChars, pieces, ih, List.map_cons, Piece.escaped]
  | case4 c cs last pair ih =>
    have other := ne_backslash_of_alone last pair
    rw [escapePathChars_cons other, List.map_cons, Piece.escaped, ← ih]
    split
    · rfl
    · exact pieces_cons other _

theorem backslashed_escapePathChars (cs : List Char) : Backslashed cs (escapePathChars cs) := by
  have each (ps : List Piece) :
      Backslashed (ps.flatMap Piece.written) ((ps.map Piece.escaped).flatMap Piece.written) := by
    induction ps with
    | nil => exact .nil
    | cons p ps ih => exact p.backslashed ih
  have inserted := each (pieces cs)
  rwa [flatMap_written, ← escapePathChars_eq] at inserted

theorem guarded_iff (token : String) :
    Guarded token ↔ (pieces token.toList).map Piece.escaped = pieces token.toList := by
  have each : (pieces token.toList).map Piece.escaped = pieces token.toList ↔
      ∀ p ∈ pieces token.toList, p.escaped = p := by
    conv_lhs => rhs; rw [← List.map_id (pieces token.toList)]
    exact List.map_inj_left
  rw [each]
  simp only [Piece.escaped_eq_self_iff]
  constructor
  · rintro guarded p hp c active rfl
    exact guarded c active hp
  · intro same c active mem
    exact same _ mem c active rfl

/-- Escaping a token again changes nothing, and the token means what it meant. Each blank and each parenthesis of the
result is the second half of a pair, so that an odd number of backslashes stands before it. Only backslashes are
inserted, and none exactly if every blank and parenthesis was in a pair already. -/
theorem path_token_guarded (token : String) :
    escapePath (escapePath token) = escapePath token ∧
    meaning (escapePath token) = meaning token ∧
    Guarded (escapePath token) ∧
    (∀ c ∈ pathActive, ∀ lead rest, (escapePath token).toList = lead ++ c :: rest → Escapes lead) ∧
    Backslashed token.toList (escapePath token).toList ∧
    (escapePath token = token ↔ Guarded token) := by
  have chars (s : String) : (escapePath s).toList = escapePathChars s.toList := String.toList_ofList
  have parts (s : String) : pieces (escapePath s).toList = (pieces s.toList).map Piece.escaped := by
    rw [chars, pieces_escapePathChars]
  have twice : ((pieces token.toList).map Piece.escaped).map Piece.escaped =
      (pieces token.toList).map Piece.escaped := by
    rw [List.map_map]
    exact List.map_congr_left fun p _ => p.escaped_escaped
  have guarded : Guarded (escapePath token) := by
    rw [guarded_iff, parts, twice]
  refine ⟨?_, ?_, guarded, ?_, ?_, ?_⟩
  · rw [escapePath, chars, escapePathChars_eq, pieces_escapePathChars, twice, ← escapePathChars_eq, escapePath]
  · rw [meaning, meaning, parts, List.map_map]
    exact congrArg String.ofList (List.map_congr_left fun p _ => p.meaning_escaped)
  · intro c active lead rest eq
    have other : c ≠ '\\' := by
      rintro rfl
      revert active
      decide
    by_contra even
    exact guarded c active ((mem_pieces_iff other _).mpr ⟨lead, rest, eq, even⟩)
  · rw [chars]
    exact backslashed_escapePathChars token.toList
  · rw [guarded_iff]
    constructor
    · intro same
      rw [← parts, same]
    · intro same
      rw [escapePath, escapePathChars_eq, same, flatMap_written, String.ofList_toList]

example : escapePath "a\\\\ (b)\\ c" = "a\\\\\\ \\(b\\)\\ c" := by decide

end Provisioning.Shell
