import Provisioning.Proofs.Recipe.Scripts
import Provisioning.Proofs.Shell.Reading

/-! Texts between double quotes. Whatever stands in a text, a shell takes it for one word that is the text; so a
download asks for its own URL and its own path, and a clone for its own repository and directory. -/

namespace Provisioning.Shell

/-- No blank is cut off behind a quoted word. -/
theorem trimEnd_quoted (lead s : String) :
    Text.trimEnd (lead ++ doubleQuote s).toList = (lead ++ doubleQuote s).toList := by
  have trimmed := trimEnd_doubleQuote lead.toList s []
  simpa [Text.trimEnd, Text.dropEndWhile] using trimmed

/-- The test of a file, and what is done if there is none. -/
def downloadTokens (url path : String) : List Token :=
  ["[", "-f", path, "]"].map .argument ++ .operator "||" ::
    ["curl", "-fL", "--create-dirs", "-o", path, url].map .argument

theorem reads_download (url path : String) : Reads (download url path) (downloadTokens url path) := by
  have test : Reads "[ -f" [.argument "[", .argument "-f"] := by decide
  have fetch : Reads "] || curl -fL --create-dirs -o" (.argument "]" :: .operator "||" ::
      ["curl", "-fL", "--create-dirs", "-o"].map .argument) := by decide
  have words : download url path = "[ -f" ++ " " ++ doubleQuote path ++ " " ++ "] || curl -fL --create-dirs -o"
      ++ " " ++ doubleQuote path ++ " " ++ doubleQuote url := by
    have first : "[ -f " = "[ -f" ++ " " := rfl
    have second : " ] || curl -fL --create-dirs -o " = " " ++ "] || curl -fL --create-dirs -o" ++ " " := rfl
    unfold download
    rw [first, second]
    simp only [String.append_assoc]
  rw [words]
  exact (((test.blank (.doubleQuote path)).blank fetch).blank (.doubleQuote path)).blank (.doubleQuote url)

theorem reads_clone (url dir : String) :
    Reads ("git clone " ++ doubleQuote url ++ " " ++ doubleQuote dir) (["git", "clone", url, dir].map .argument) := by
  have command : Reads "git clone" (["git", "clone"].map .argument) := by decide
  have words : "git clone " = "git clone" ++ " " := rfl
  rw [words]
  exact (command.blank (.doubleQuote url)).blank (.doubleQuote dir)

/-- A text between double quotes is read as one word, up to its own closing quote and whatever follows it; each of
its characters stands for itself. So a download tests one path and fetches its URL to the same path, and a clone has
its URL and its directory, in any directory into which the script changes. -/
theorem quoted_words_literal :
    (∀ (s : String) (rest : List Char), Reader.start.readOut ((doubleQuote s).toList ++ rest) =
      some (⟨[], .word (s.toList.map .quoted), .bare⟩, rest)) ∧
    (∀ s : String, Token.ofWord (s.toList.map .quoted) = .argument s) ∧
    (∀ url path, tokens? (download url path) = some (downloadTokens url path) ∧
      ∀ directory, Carries (inDirectory (download url path) directory) directory (downloadTokens url path)) ∧
    ∀ (url dir : String) (more : List Argument), ∃ code,
      Command.Runs ⟨"Git", some "Clone", .string url :: .string dir :: more⟩
        [banner ("git clone " ++ url ++ " " ++ dir), code] ∧
      tokens? code = some (["git", "clone", url, dir].map .argument) ∧
      ∀ directory, Carries (inDirectory code directory) directory (["git", "clone", url, dir].map .argument) := by
  refine ⟨fun s rest => readOut_doubleQuote rfl s rest, ofWord_quoted, fun url path => ?_, fun url dir more => ?_⟩
  · have trimmed : Text.trimEnd (download url path).toList = (download url path).toList := trimEnd_quoted _ url
    exact (reads_download url path).carried trimmed
  · have trimmed := trimEnd_quoted ("git clone " ++ doubleQuote url ++ " ") dir
    exact ⟨_, Command.runs_of_resolve Recipe.cloneRepository rfl rfl, (reads_clone url dir).carried trimmed⟩

end Provisioning.Shell
