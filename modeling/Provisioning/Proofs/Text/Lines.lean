import Mathlib.Logic.Basic
import Provisioning.Proofs.Text.Ends

/-! Lines and the blanks around them. A text is the pieces between its line feeds, and its lines are those
pieces, up to blanks at their ends and an empty piece at the end of the text. -/

namespace Provisioning.Text

/-! ### Pieces -/

theorem splitOn_ne_nil (sep : Char) (cs : List Char) : splitOn sep cs ≠ [] := by
  cases cs with
  | nil => simp [splitOn]
  | cons c cs =>
    rw [splitOn]
    split
    · simp
    · split <;> simp

theorem splitOn_cons_of_ne {sep c : Char} (h : c ≠ sep) {cs piece : List Char} {pieces : List (List Char)}
    (rest : splitOn sep cs = piece :: pieces) : splitOn sep (c :: cs) = (c :: piece) :: pieces := by
  rw [splitOn, if_neg h, rest]

/-- The pieces, each with a separator behind it, are the text with a separator behind it. -/
theorem splitOn_flatMap (sep : Char) (cs : List Char) :
    (splitOn sep cs).flatMap (· ++ [sep]) = cs ++ [sep] := by
  induction cs with
  | nil => simp [splitOn]
  | cons c cs ih =>
    by_cases h : c = sep
    · subst h
      simp [splitOn, ih]
    · obtain ⟨piece, pieces, eq⟩ := List.exists_cons_of_ne_nil (splitOn_ne_nil sep cs)
      rw [eq] at ih
      rw [splitOn_cons_of_ne h eq]
      simpa using ih

theorem not_mem_of_mem_splitOn {sep : Char} {cs piece : List Char} (h : piece ∈ splitOn sep cs) :
    sep ∉ piece := by
  induction cs generalizing piece with
  | nil =>
    simp only [splitOn, List.mem_singleton] at h
    simp [h]
  | cons c cs ih =>
    by_cases same : c = sep
    · rw [splitOn, if_pos same] at h
      rcases List.mem_cons.mp h with rfl | later
      · simp
      · exact ih later
    · obtain ⟨first, pieces, eq⟩ := List.exists_cons_of_ne_nil (splitOn_ne_nil sep cs)
      rw [splitOn_cons_of_ne same eq] at h
      rcases List.mem_cons.mp h with rfl | later
      · have inside : sep ∉ first := ih (by rw [eq]; exact List.mem_cons_self)
        simp [Ne.symm same, inside]
      · exact ih (by rw [eq]; exact List.mem_cons_of_mem _ later)

theorem splitOn_append (sep : Char) (cs more : List Char) :
    splitOn sep (cs ++ sep :: more) = splitOn sep cs ++ splitOn sep more := by
  induction cs with
  | nil => simp [splitOn]
  | cons c cs ih =>
    by_cases h : c = sep
    · simp [splitOn, h, ih]
    · obtain ⟨piece, pieces, eq⟩ := List.exists_cons_of_ne_nil (splitOn_ne_nil sep cs)
      rw [eq] at ih
      rw [splitOn_cons_of_ne h eq, List.cons_append, splitOn_cons_of_ne h ih]
      rfl

theorem splitOn_of_not_mem {sep : Char} {cs : List Char} (h : sep ∉ cs) : splitOn sep cs = [cs] := by
  induction cs with
  | nil => rfl
  | cons c cs ih =>
    obtain ⟨other, later⟩ := not_or.mp (mt List.mem_cons.mpr h)
    exact splitOn_cons_of_ne (Ne.symm other) (ih later)

theorem splitOnce?_append {sep : Char} {piece : List Char} (h : sep ∉ piece) (rest : List Char) :
    splitOnce? sep (piece ++ sep :: rest) = some (piece, rest) := by
  induction piece with
  | nil => simp [splitOnce?]
  | cons c piece ih =>
    obtain ⟨other, inside⟩ := not_or.mp (mt List.mem_cons.mpr h)
    rw [List.cons_append, splitOnce?, if_neg (Ne.symm other), ih inside]
    rfl

theorem length_of_splitOnce? {sep : Char} {cs piece rest : List Char}
    (h : splitOnce? sep cs = some (piece, rest)) : rest.length < cs.length := by
  induction cs generalizing piece with
  | nil => cases h
  | cons c cs ih =>
    rw [splitOnce?] at h
    split at h
    · cases h
      simp
    · obtain ⟨⟨first, later⟩, found, eq⟩ := Option.map_eq_some_iff.mp h
      cases eq
      have shorter := ih found
      simp only [List.length_cons]
      omega

/-! ### Blanks -/

theorem trimEnd_concat {c : Char} (h : isBlank c = true) (cs : List Char) :
    trimEnd (cs ++ [c]) = trimEnd cs :=
  dropEndWhile_append_of_pos cs (List.forall_mem_singleton.mpr h)

theorem trim_concat {c : Char} (h : isBlank c = true) (cs : List Char) : trim (cs ++ [c]) = trim cs := by
  rw [trim, trim, List.dropWhile_append]
  split
  · next empty => simp [List.isEmpty_iff.mp empty, h]
  · exact trimEnd_concat h _

theorem trim_dropReturn (line : List Char) : trim (dropReturn line) = trim line := by
  rcases List.eq_nil_or_concat line with rfl | ⟨cs, c, rfl⟩
  · rfl
  · by_cases h : c = '\r'
    · subst h
      have dropped : dropReturn (cs.concat '\r') = cs := by simp [dropReturn]
      rw [dropped, List.concat_eq_append, trim_concat (by decide)]
    · have kept : dropReturn (cs.concat c) = cs.concat c := by simp [dropReturn, h]
      rw [kept]

/-- A word between blanks is what is left without them. -/
theorem trim_append {blanks word : List Char} (blank : ∀ c ∈ blanks, isBlank c = true)
    (h : ∀ c ∈ word, isBlank c = false) : trim (blanks ++ word) = word := by
  have kept : word.dropWhile isBlank = word := by
    cases word with
    | nil => rfl
    | cons c cs => simp [h c List.mem_cons_self]
  rw [trim, List.dropWhile_append_of_pos blank, kept, trimEnd_eq_self h]

/-! ### Lines -/

/-- The lines of a text, without the blanks around them, are its pieces without theirs, and empty ones
more or less. -/
theorem exists_mem_lines {word : List Char} (h : word ≠ []) (cs : List Char) :
    (∃ line ∈ lines cs, trim line = word) ↔ ∃ piece ∈ splitOn '\n' cs, trim piece = word := by
  rcases List.eq_nil_or_concat (splitOn '\n' cs) with none | ⟨ended, last, eq⟩
  · exact absurd none (splitOn_ne_nil _ _)
  · have empty : trim ([] : List Char) ≠ word := Ne.symm h
    have reversed : (splitOn '\n' cs).reverse = last :: ended.reverse := by simp [eq]
    rw [lines, reversed, eq]
    cases last with
    | nil => simp [trim_dropReturn, empty]
    | cons c last => simp [trim_dropReturn]

end Provisioning.Text
