import Mathlib.Data.Bool.AllAny
import Provisioning.Proofs.Shell.Commands
import Provisioning.Proofs.Shell.Substitution

/-! The script that installs a package from a disk image. The label of the volume stands outside of quotes twice, in front
of the name of a package, and in a pattern inside of a command that is substituted between double quotes. A shell takes it
for one directory everywhere. -/

namespace Provisioning.Shell

variable {image label file : String}

/-! ### The volume -/

def volumePath (label : String) : String := mountRoot ++ "/" ++ label

def volumeWord (label : String) : Word := (mountRoot ++ "/").toList.map .plain ++ pathWord label.toList

theorem char?_volumeWord (label : String) :
    (volumeWord label).map Mark.char? = (volumePath label).toList.map some := by
  rw [volumeWord, List.map_append, char?_plain, char?_pathWord, ← List.map_append, ← String.toList_append, volumePath]

theorem spells_volume (nonempty : label ≠ "") (h : ∀ c ∈ label.toList, Ordinary c) :
    Nest.Spells (volume label).toList (volumeWord label) [] := by
  have root : Nest.Spells (mountRoot ++ "/").toList ((mountRoot ++ "/").toList.map .plain) [] :=
    .plain (by decide) (by decide)
  rw [volume, String.toList_append]
  exact root.append (.escapePath nonempty h)

theorem reads_volume (nonempty : label ≠ "") (h : ∀ c ∈ label.toList, Ordinary c) :
    Nest.Reads (volume label) [.argument (volumePath label)] [] := by
  have read := Nest.Reads.word (spells_volume nonempty h)
  rwa [ofWord_eq (char?_volumeWord label), String.ofList_toList] at read

/-! ### The package -/

/-- A name with a dot and with `pkg` at its end that is not hidden. -/
def IsPackageName (name : String) : Prop :=
  '/' ∉ name.toList ∧ name.toList.head? ≠ some '.' ∧ ∃ stem kind, name = stem ++ "." ++ kind ++ "pkg"

def packageStars : Word := .active '*' :: .plain '.' :: .active '*' :: "pkg".toList.map .plain

def packagePattern (label : String) : Word := volumeWord label ++ .plain '/' :: packageStars

theorem matches_packageStars {name : String} : packageStars.Matches true name.toList ↔ IsPackageName name := by
  have pkg {first : Bool} {cs : List Char} : Word.Matches first ("pkg".toList.map .plain) cs ↔ cs = "pkg".toList :=
    Word.matches_chars (char?_plain _)
  constructor
  · rintro ⟨stem, rest, eq, noSlash, visible, dotted⟩
    obtain ⟨_, rfl, kind, _, rfl, noSlash', -, last⟩ := (Word.matches_char rfl).mp dotted
    obtain rfl := pkg.mp last
    refine ⟨?_, visible rfl, String.ofList stem, String.ofList kind, String.toList_inj.mp ?_⟩
    · rw [eq]
      simp [noSlash, noSlash']
    · simp [eq]
  · rintro ⟨noSlash, visible, stem, kind, rfl⟩
    have parts : (stem ++ "." ++ kind ++ "pkg").toList = stem.toList ++ '.' :: (kind.toList ++ "pkg".toList) := by simp
    rw [parts] at noSlash visible ⊢
    simp only [List.mem_append, List.mem_cons, not_or] at noSlash
    obtain ⟨noSlash, -, noSlash', -⟩ := noSlash
    exact ⟨stem.toList, _, rfl, noSlash, fun _ => visible, (Word.matches_char rfl).mpr
      ⟨_, rfl, kind.toList, _, rfl, noSlash', nofun, pkg.mpr rfl⟩⟩

theorem matches_packagePattern (label path : String) :
    (packagePattern label).Matches true path.toList ↔
      ∃ name, IsPackageName name ∧ path = volumePath label ++ "/" ++ name := by
  rw [packagePattern, Word.matches_directory (char?_volumeWord label)]
  constructor
  · rintro ⟨rest, eq, inside⟩
    rw [← String.toList_ofList (l := rest)] at eq inside
    exact ⟨String.ofList rest, matches_packageStars.mp inside, String.toList_inj.mp (by simp [eq])⟩
  · rintro ⟨name, package, rfl⟩
    exact ⟨name.toList, by simp, matches_packageStars.mpr package⟩

/-- The word stands for the package of the volume: a named one in it, or what a script inside of the word prints. That
script lists the paths of all package names in the volume and cuts the list off behind the first. -/
def PackageChoice.StandsFor (label : String) : PackageChoice → Token → List Substitution → Prop
  | .named file, word, inside => word = .argument (volumePath label ++ "/" ++ file) ∧ inside = []
  | .firstMatch, word, inside => word = .expansion substituted ∧ ∃ script pattern,
      inside = [⟨true, script⟩] ∧
      commandLines? script = some [[[⟨[.argument "ls", .argument "-d", .expansion pattern], []⟩,
        ⟨["head", "-n", "1"].map .argument, []⟩]]] ∧
      ∀ path : String, pattern.Matches true path.toList ↔
        ∃ name, IsPackageName name ∧ path = volumePath label ++ "/" ++ name

theorem reads_named (nonempty : label ≠ "") (ordinary : ∀ c ∈ label.toList, Ordinary c) (named : file ≠ "")
    (ordinary' : ∀ c ∈ file.toList, Ordinary c) :
    Nest.Reads (volume label ++ "/" ++ escapePath file) [.argument (volumePath label ++ "/" ++ file)] [] := by
  have slash : Nest.Spells "/".toList ("/".toList.map .plain) [] := .plain (by decide) (by decide)
  have spelled := ((spells_volume nonempty ordinary).append slash).append (.escapePath named ordinary')
  rw [← String.toList_append, ← String.toList_append] at spelled
  have chars : (volumeWord label ++ "/".toList.map Mark.plain ++ pathWord file.toList).map Mark.char? =
      (volumePath label ++ "/" ++ file).toList.map some := by
    simp only [List.map_append, char?_volumeWord, char?_plain, char?_pathWord, String.toList_append]
  have read := Nest.Reads.word spelled
  rwa [ofWord_eq chars, String.ofList_toList] at read

theorem spells_pattern (nonempty : label ≠ "") (ordinary : ∀ c ∈ label.toList, Ordinary c) :
    Nest.Spells (volume label ++ "/*.*pkg").toList (packagePattern label) [] := by
  have star : Nest.Spells ['*'] [.active '*'] [] := .quiet (.active rfl) fun _ _ => .of_neutral (by decide) _
  have plain (cs : List Char) (some : cs ≠ []) (h : cs.all (role · = .plain) = true) :
      Nest.Spells cs (cs.map .plain) [] := .plain some h
  have stars := (((plain ['/'] nofun (by decide)).append star).append (plain ['.'] nofun (by decide))).append
    (star.append (plain "pkg".toList (by decide) (by decide)))
  have spelled := (spells_volume nonempty ordinary).append stars
  rw [String.toList_append]
  exact spelled

/-- The word of the package is read as what it stands for. -/
theorem reads_package (nonempty : label ≠ "") (ordinary : ∀ c ∈ label.toList, Ordinary c) {package : PackageChoice}
    (named : ∀ file, package = .named file → file ≠ "" ∧ ∀ c ∈ file.toList, Ordinary c) :
    ∃ word inside, word.isWord = true ∧ Nest.Reads (package.word (volume label)) [word] inside ∧
      package.StandsFor label word inside := by
  cases package with
  | named file =>
    obtain ⟨some, ordinary'⟩ := named file rfl
    exact ⟨_, _, rfl, reads_named nonempty ordinary some ordinary', rfl, rfl⟩
  | firstMatch =>
    have list : Nest.Reads "ls -d" (["ls", "-d"].map .argument) [] := .neutral (by decide) (by decide)
    have first : Nest.Reads "| head -n 1" (.operator "|" :: ["head", "-n", "1"].map .argument) [] :=
      .neutral (by decide) (by decide)
    have pattern := Nest.Reads.word (spells_pattern nonempty ordinary)
    have active : Token.ofWord (packagePattern label) = .expansion (packagePattern label) :=
      ofWord_active (c := '*') (by simp [packagePattern, packageStars]) (by simp [packagePattern, packageStars])
    rw [active] at pattern
    have substitution := Nest.Reads.word (Nest.Spells.substitution ((list.blank pattern).blank first))
    have text : PackageChoice.firstMatch.word (volume label) =
        "\x22$(" ++ ("ls -d" ++ " " ++ (volume label ++ "/*.*pkg") ++ " " ++ "| head -n 1") ++ ")\x22" := by
      have opening : "\x22$(ls -d " = "\x22$(" ++ "ls -d" ++ " " := rfl
      have closing : "/*.*pkg | head -n 1)\x22" = "/*.*pkg" ++ " " ++ "| head -n 1" ++ ")\x22" := rfl
      rw [PackageChoice.word, opening, closing]
      simp only [String.append_assoc]
    rw [text]
    exact ⟨_, _, rfl, substitution, rfl, _, packagePattern label, rfl, rfl, matches_packagePattern label⟩

/-! ### The script -/

def mountedTokens (image label : String) (package : Token) : List Token :=
  ["hdiutil", "detach", volumePath label].map .argument ++
    [.operator ">", .argument "/dev/null", .operator "2>&", .argument "1", .operator "||", .argument "true"] ++
    .lineEnd :: ["hdiutil", "attach", image, "-mountroot", mountRoot, "-nobrowse"].map .argument ++
    .lineEnd :: ["sudo", "installer", "-pkg"].map .argument ++ package :: ["-target", "/"].map .argument ++
    .lineEnd :: ["hdiutil", "detach", volumePath label].map .argument

/-- The volume is unmounted if it is mounted. -/
def unmountStale (label : String) : Line :=
  [[⟨["hdiutil", "detach", volumePath label].map .argument, [(">", .argument "/dev/null"), ("2>&", .argument "1")]⟩],
    [⟨[.argument "true"], []⟩]]

theorem succeeds_unmountStale {ok : SimpleCommand → Bool} (h : ok ⟨[.argument "true"], []⟩ = true) (label : String) :
    (unmountStale label).succeeds ok = true := by
  simp [Line.succeeds, unmountStale, h]

theorem reads_mounted (image : String) (nonempty : label ≠ "") (ordinary : ∀ c ∈ label.toList, Ordinary c)
    {package : PackageChoice} {word : Token} {inside : List Substitution}
    (chosen : Nest.Reads (package.word (volume label)) [word] inside) :
    Nest.Reads (installMounted image label package) (mountedTokens image label word) inside := by
  have volume' := reads_volume nonempty ordinary
  have detach : Nest.Reads "hdiutil detach" (["hdiutil", "detach"].map .argument) [] := .neutral (by decide) (by decide)
  have ignored : Nest.Reads "> /dev/null 2>&1 || true" [.operator ">", .argument "/dev/null", .operator "2>&",
    .argument "1", .operator "||", .argument "true"] [] := .neutral (by decide) (by decide)
  have attach : Nest.Reads "hdiutil attach" (["hdiutil", "attach"].map .argument) [] := .neutral (by decide) (by decide)
  have below : Nest.Reads ("-mountroot " ++ mountRoot ++ " -nobrowse")
      (["-mountroot", mountRoot, "-nobrowse"].map .argument) [] := .neutral (by decide) (by decide)
  have install : Nest.Reads "sudo installer -pkg" (["sudo", "installer", "-pkg"].map .argument) [] :=
    .neutral (by decide) (by decide)
  have target : Nest.Reads "-target /" (["-target", "/"].map .argument) [] := .neutral (by decide) (by decide)
  have read := ((((detach.blank volume').blank ignored).lineFeed ((attach.blank (.doubleQuote image)).blank below)).lineFeed
    ((install.blank chosen).blank target)).lineFeed (detach.blank volume')
  have text : installMounted image label package =
      "hdiutil detach" ++ " " ++ volume label ++ " " ++ "> /dev/null 2>&1 || true" ++ "\n" ++
        ("hdiutil attach" ++ " " ++ doubleQuote image ++ " " ++ ("-mountroot " ++ mountRoot ++ " -nobrowse")) ++ "\n" ++
        ("sudo installer -pkg" ++ " " ++ package.word (volume label) ++ " " ++ "-target /") ++ "\n" ++
        ("hdiutil detach" ++ " " ++ volume label) := by
    have detach : "hdiutil detach " = "hdiutil detach" ++ " " := rfl
    have ignored : " > /dev/null 2>&1 || true\n" = " " ++ "> /dev/null 2>&1 || true" ++ "\n" := rfl
    have attach : "hdiutil attach " = "hdiutil attach" ++ " " := rfl
    have below : " -mountroot " = " " ++ "-mountroot " := rfl
    have hidden : " -nobrowse\n" = " -nobrowse" ++ "\n" := rfl
    have install : "sudo installer -pkg " = "sudo installer -pkg" ++ " " := rfl
    have target : " -target /\n" = " " ++ "-target /" ++ "\n" := rfl
    -- The equation of `installMounted` would be checked character by character.
    unfold installMounted
    rw [detach, ignored, attach, below, hidden, install, target]
    simp only [String.append_assoc]
  rw [← text] at read
  simp only [List.append_nil, List.nil_append] at read
  exact read

/-- Whatever stands in the path of the image, and whatever blanks and parentheses stand in the label of the volume and in
the name of the package, a shell reads four lines: it unmounts the volume, and goes on if there is none; it mounts the
image; it installs a package of the volume; it unmounts the volume. -/
theorem mounted_lines (image : String) {label : String} (nonempty : label ≠ "") (ordinary : ∀ c ∈ label.toList, Ordinary c)
    (package : PackageChoice)
    (named : ∀ file, package = .named file → file ≠ "" ∧ ∀ c ∈ file.toList, Ordinary c) :
    ∃ tokens inside word,
      nestedTokens? (installMounted image label package) = some (tokens, inside) ∧
      commandLines? tokens = some [
        unmountStale label,
        [[⟨["hdiutil", "attach", image, "-mountroot", mountRoot, "-nobrowse"].map .argument, []⟩]],
        [[⟨["sudo", "installer", "-pkg"].map .argument ++ word :: ["-target", "/"].map .argument, []⟩]],
        [[⟨["hdiutil", "detach", volumePath label].map .argument, []⟩]]] ∧
      package.StandsFor label word inside ∧
      ∀ ok, ok ⟨[.argument "true"], []⟩ = true → (unmountStale label).succeeds ok = true := by
  obtain ⟨word, inside, isWord, chosen, stands⟩ := reads_package nonempty ordinary named
  refine ⟨mountedTokens image label word, inside, word, (reads_mounted image nonempty ordinary chosen).nestedTokens?, ?_,
    stands, fun ok harmless => succeeds_unmountStale harmless label⟩
  -- The commands are the same for every word.
  cases word with
  | argument | expansion => rfl
  | operator | lineEnd => cases isWord

theorem mounted_lines_suite :
    let label := "GPG Suite (1)"
    (∀ c ∈ label.toList, Ordinary c) ∧ (∀ c ∈ "Install (x).pkg".toList, Ordinary c) ∧
      ∃ tokens, nestedTokens? (installMounted "/c/$a.dmg" label (.named "Install (x).pkg")) = some (tokens, []) ∧
        (commandLines? tokens).map (·[2]?) = some (some [[⟨["sudo", "installer", "-pkg",
          "/Volumes/_vm_provisioning_/GPG Suite (1)/Install (x).pkg", "-target", "/"].map .argument, []⟩]]) := by
  have label : ∀ c ∈ "GPG Suite (1)".toList, Ordinary c := List.all_iff_forall_prop.mp (by decide)
  have file : ∀ c ∈ "Install (x).pkg".toList, Ordinary c := List.all_iff_forall_prop.mp (by decide)
  obtain ⟨tokens, _, _, read, lines, ⟨rfl, rfl⟩, -⟩ :=
    mounted_lines "/c/$a.dmg" (by decide) label (.named "Install (x).pkg") fun _ same =>
      PackageChoice.named.inj same ▸ ⟨by decide, file⟩
  refine ⟨label, file, tokens, read, ?_⟩
  rw [lines]
  decide

end Provisioning.Shell
