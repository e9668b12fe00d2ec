import Provisioning.Proofs.Text.Ends
import Provisioning.Shell.Script

/-! Scripts as text. Blanks at the end of a script are cut off, but never a part of a quoted word. -/

namespace Provisioning.Shell

/-- The quote at the end of a word is no blank. -/
theorem trimEnd_doubleQuote (a : List Char) (text : String) (t : List Char) :
    Text.trimEnd (a ++ (doubleQuote text).toList ++ t) =
      a ++ (doubleQuote text).toList ++ Text.trimEnd t := by
  have quoted (t : List Char) : a ++ (doubleQuote text).toList ++ t =
      (a ++ '\x22' :: escapeQuotedChars text.toList) ++ '\x22' :: t := by
    simp [doubleQuote, doubleQuoteChars]
  rw [quoted, quoted]
  exact Text.dropEndWhile_append (by decide) _ t

/-- A script with a quoted word has the word in its text as it is. -/
theorem inDirectory_doubleQuote (lead text trail directory : String) :
    inDirectory (lead ++ doubleQuote text ++ trail) directory =
      "set -e\npushd " ++ escapePath directory ++ " > /dev/null\n" ++ lead ++ doubleQuote text
        ++ String.ofList (Text.trimEnd trail.toList) ++ "\npopd > /dev/null\n" := by
  have trimmed : String.ofList (Text.trimEnd (lead ++ doubleQuote text ++ trail).toList) =
      lead ++ doubleQuote text ++ String.ofList (Text.trimEnd trail.toList) := by
    rw [String.toList_append, String.toList_append, trimEnd_doubleQuote]
    simp only [String.ofList_append, String.ofList_toList]
  unfold inDirectory
  simp only [trimmed]
  simp only [String.append_assoc]

end Provisioning.Shell
