import Provisioning.Proofs.Shell.PathToken

/-! The end of a script that changes the directory. The command that changes back is on a line of its own, unless
the code ends, up to blanks, in the middle of a pair: then the blanks are cut off with what the pair kept. -/

namespace Provisioning.Shell

/-- The text of a script behind its code. -/
def changeBack : List Char := "\npopd > /dev/null\n".toList

/-- What is left of the code without the blanks at its end stops inside of a pair. -/
def BreaksOff (code : List Char) : Prop :=
  ∃ body blanks, code = body ++ blanks ∧ Escapes body ∧ ∀ c ∈ blanks, Text.isBlank c = true

theorem Escapes.exists_concat {cs : List Char} (h : Escapes cs) : ∃ lead, cs = lead ++ ['\\'] := by
  rcases List.eq_nil_or_concat cs with rfl | ⟨lead, c, rfl⟩
  · exact absurd h (by decide)
  · rw [List.concat_eq_append] at h ⊢
    by_cases same : c = '\\'
    · exact ⟨lead, by rw [same]⟩
    · exact absurd ((escapes_append same lead []).mp h) (by decide)

theorem escapes_trimEnd_iff (code : List Char) : Escapes (Text.trimEnd code) ↔ BreaksOff code := by
  constructor
  · intro odd
    obtain ⟨blanks, eq, blank⟩ := Text.exists_dropped Text.isBlank code
    exact ⟨_, blanks, eq, odd, blank⟩
  · rintro ⟨body, blanks, rfl, odd, blank⟩
    -- A backslash is no blank, so that nothing of the body is cut off.
    obtain ⟨lead, rfl⟩ := odd.exists_concat
    have last : Text.trimEnd ['\\'] = ['\\'] := by decide
    rwa [Text.trimEnd, Text.dropEndWhile_append_of_pos _ blank, ← Text.trimEnd, Text.trimEnd_append (by simp) last]

/-- In every directory the line break before the change back is escaped exactly if the code breaks off; otherwise the
change back is a command of its own. -/
theorem change_back_apart (code directory : String) :
    ∃ front, (inDirectory code directory).toList = front ++ changeBack ∧ (Escapes front ↔ BreaksOff code.toList) := by
  have header : (opening directory).toList =
      ("set -e\npushd " ++ escapePath directory).toList ++ " > /dev/null".toList ++ ['\n'] := by
    have line : " > /dev/null\n".toList = " > /dev/null".toList ++ ['\n'] := by decide
    rw [opening, String.toList_append, line, List.append_assoc]
  refine ⟨(opening directory).toList ++ Text.trimEnd code.toList, ?_, ?_⟩
  · unfold inDirectory opening changeBack
    rw [String.toList_append, String.toList_append, String.toList_ofList]
  · rw [header, List.append_assoc, List.singleton_append, escapes_append (by decide), escapes_trimEnd_iff]

/-- A script that ends with an escaped blank is no line that goes on, and yet the command that changes back becomes a
part of its last word. -/
theorem escaped_blank_joins :
    ¬(∀ (code directory : String) (front : List Char), ¬Escapes code.toList →
      (inDirectory code directory).toList = front ++ changeBack → ¬Escapes front) ∧
    tokens? "echo a\\ " = some [.argument "echo", .argument "a "] ∧
    tokens? (inDirectory "echo a\\ " ".") = some [.argument "set", .argument "-e", .lineEnd, .argument "pushd",
      .argument ".", .operator ">", .argument "/dev/null", .lineEnd, .argument "echo", .argument "apopd",
      .operator ">", .argument "/dev/null", .lineEnd] := by
  refine ⟨fun apart => ?_, by decide, by decide⟩
  exact apart "echo a\\ " "." "set -e\npushd . > /dev/null\necho a\\".toList (by decide) (by decide) (by decide)

end Provisioning.Shell
