import Mathlib.Data.Bool.AllAny
import Provisioning.Proofs.Shell.Quoted

/-! Versions in the commands that install them. A gem's version is quoted. The other installers write the version as
it is, which a range of versions does not survive. -/

namespace Provisioning

namespace Recipe

open Shell

/-- How the version that the argument asks for is installed. -/
structure Installer where
  action : String
  /-- What a shell reads before the word that ends in the version. -/
  before : List Token
  product : String
  /-- What it reads after that word. -/
  after : String → List Token

namespace Installer

def tokens (i : Installer) (version : String) : List Token :=
  i.before ++ .argument (i.product ++ version) :: i.after version

/-- Asked for the version, the recipe runs a banner and a script whose installing command has the version at the end
of one argument. Where else the script names it, the version is a part of a word, too. -/
def Installs (i : Installer) (version : String) : Prop :=
  ∀ (x : Argument) (more : List Argument), x.text? = some version → ∃ message code,
    Command.Runs ⟨"Install", some i.action, x :: more⟩ [Shell.banner message, code] ∧
    tokens? code = some (i.tokens version) ∧
    ∀ directory, Carries (inDirectory code directory) directory (i.tokens version)

def gem (action name : String) : Installer :=
  ⟨action, ["gem", "install", "--no-rdoc", "--no-ri", name, "-v"].map .argument, "", fun _ => []⟩

def npm (action name : String) : Installer :=
  ⟨action, ["npm", "install"].map .argument, name ++ "@", fun _ => []⟩

def unquoted (s : String) : Word := s.toList.map .plain

def agents : Token := .expansion (.active '~' :: unquoted "/Library/LaunchAgents")

def postgreSql : Installer where
  action := "PostgreSQL"
  before := ["brew", "install"].map .argument
  product := "postgresql"
  after version :=
    .lineEnd :: ["rm", "-rf", "/usr/local/var/postgres/"].map .argument ++
    .lineEnd :: ["initdb", "/usr/local/var/postgres", "-E", "UTF8"].map .argument ++
    .lineEnd :: ["mkdir", "-p"].map .argument ++ agents ::
    .lineEnd :: ["ln", "-sfv"].map .argument ++
    [.expansion (unquoted ("/usr/local/opt/postgresql" ++ version ++ "/") ++ .active '*' :: unquoted ".plist"),
      agents]

def profile : Token := .expansion (.active '~' :: unquoted "/.bash_profile")

def rbenvHook : String := "if which rbenv > /dev/null; then eval \"$(rbenv init -)\"; fi"

def ruby : Installer where
  action := "Ruby"
  before :=
    ["brew", "install", "apple-gcc42"].map .argument ++
    .lineEnd :: ["brew", "install", "rbenv"].map .argument ++
    .lineEnd :: ["brew", "install", "ruby-build"].map .argument ++
    .lineEnd :: ["rbenv", "install"].map .argument
  product := ""
  after version :=
    .lineEnd :: ["rbenv", "global", version].map .argument ++
    .lineEnd :: ["rbenv", "rehash"].map .argument ++
    .lineEnd :: ["echo", rbenvHook].map .argument ++ [.operator ">>", profile]

end Installer

def quotingInstallers : List Installer :=
  [.gem "Rails" "rails", .gem "Bundler" "bundler", .gem "Foundation" "foundation"]

def splicingInstallers : List Installer :=
  [.npm "Bower" "bower", .npm "GruntCli" "grunt-cli", .postgreSql, .ruby]

theorem version?_of_text? {label : String} {x : Argument} {more : List Argument} {version : String}
    (h : x.text? = some version) : version? ⟨label, x :: more⟩ = .done (some version) := by
  unfold version? Arguments.text? Arguments.get?
  simp [h]
  rfl

namespace Installer

variable {action name version : String}

theorem gem_installs (resolved : shipped.resolve "Install" (some action) .osx = .ok (.steps (Recipe.gem name)))
    (word : Reads name [.argument name]) (version : String) : (gem action name).Installs version := by
  intro x more text
  have steps : Recipe.gem name (Command.arguments ⟨"Install", some action, x :: more⟩) =
      .scripts [Shell.banner ("installing " ++ name ++ " (" ++ version ++ ")"),
        "gem install --no-rdoc --no-ri " ++ name ++ " -v " ++ doubleQuote version] := by
    rw [Recipe.gem, Command.arguments, version?_of_text? text]
    rfl
  have read : Reads ("gem install --no-rdoc --no-ri " ++ name ++ " -v " ++ doubleQuote version)
      ((gem action name).tokens version) := by
    have command : Reads "gem install --no-rdoc --no-ri"
        (["gem", "install", "--no-rdoc", "--no-ri"].map .argument) := by decide
    have option : Reads "-v" [.argument "-v"] := by decide
    have first : "gem install --no-rdoc --no-ri " = "gem install --no-rdoc --no-ri" ++ " " := by decide
    have second : " -v " = " " ++ "-v" ++ " " := by decide
    have read := ((command.blank word).blank option).blank (.doubleQuote version)
    rw [first, second]
    simp only [String.append_assoc] at read ⊢
    exact read
  exact ⟨_, _, Command.runs_of_resolve _ resolved steps, read.carried (trimEnd_quoted _ version)⟩

/-- The characters of a version that a shell takes as it is. -/
def Literal (version : String) : Prop := ∀ c ∈ version.toList, role c = .plain ∧ Text.isBlank c = false

instance (version : String) : Decidable (Literal version) :=
  decidable_of_iff (version.toList.all fun c => role c = .plain ∧ Text.isBlank c = false) List.all_iff_forall_prop

theorem Literal.append {lead : String} (h : ∀ c ∈ lead.toList, role c = .plain) (literal : Literal version) :
    ∀ c ∈ (lead ++ version).toList, role c = .plain := by
  intro c mem
  rw [String.toList_append, List.mem_append] at mem
  exact mem.elim (h c) fun later => (literal c later).1

theorem npm_installs (resolved : shipped.resolve "Install" (some action) .osx = .ok (.steps (npmPackage name)))
    (word : ∀ c ∈ (name ++ "@").toList, role c = .plain) (literal : Literal version) :
    (npm action name).Installs version := by
  intro x more text
  have steps : npmPackage name (Command.arguments ⟨"Install", some action, x :: more⟩) =
      .scripts [Shell.banner ("installing " ++ name ++ " (" ++ version ++ ")"),
        "npm install " ++ name ++ "@" ++ version] := by
    rw [npmPackage, Command.arguments, version?_of_text? text]
    rfl
  have read : Reads ("npm install " ++ name ++ "@" ++ version) ((npm action name).tokens version) := by
    have command : Reads "npm install" (["npm", "install"].map .argument) := by decide
    have package : Reads (name ++ "@" ++ version) [.argument (name ++ "@" ++ version)] :=
      .plain (by simp) (literal.append word)
    have first : "npm install " = "npm install" ++ " " := by decide
    have read := command.blank package
    rw [first]
    simp only [String.append_assoc] at read ⊢
    simpa only [tokens, npm, String.append_assoc] using read
  have trimmed : Text.trimEnd ("npm install " ++ name ++ "@" ++ version).toList =
      ("npm install " ++ name ++ "@" ++ version).toList := by
    have last : Text.trimEnd ('@' :: version.toList) = '@' :: version.toList := by
      refine Text.trimEnd_eq_self fun c mem => ?_
      rcases List.mem_cons.mp mem with rfl | later
      · rfl
      · exact (literal c later).2
    have parts : ("npm install " ++ name ++ "@" ++ version).toList =
        ("npm install " ++ name).toList ++ '@' :: version.toList := by simp
    rw [parts, Text.trimEnd_append (List.cons_ne_nil _ _) last]
  exact ⟨_, _, Command.runs_of_resolve _ resolved steps, read.carried trimmed⟩

theorem reads_agents : Reads "~/Library/LaunchAgents" [agents] := by decide +kernel

theorem reads_plists (literal : Literal version) : Reads ("/usr/local/opt/postgresql" ++ version ++ "/*.plist")
    [.expansion (unquoted ("/usr/local/opt/postgresql" ++ version ++ "/") ++ .active '*' :: unquoted ".plist")] := by
  have directory : Spells ("/usr/local/opt/postgresql" ++ version ++ "/").toList
      (unquoted ("/usr/local/opt/postgresql" ++ version ++ "/")) := by
    refine Spells.plain (by simp) fun c mem => ?_
    rw [String.toList_append, List.mem_append] at mem
    rcases mem with before | slash
    · exact literal.append (List.all_iff_forall_prop.mp rfl) c before
    · rw [List.mem_singleton.mp slash]
      rfl
  have every : Spells ['*'] [.active '*'] := .active rfl
  have kind : Spells ".plist".toList (unquoted ".plist") := .plain (by decide) (List.all_iff_forall_prop.mp rfl)
  have parts : ("/usr/local/opt/postgresql" ++ version ++ "/*.plist").toList =
      ("/usr/local/opt/postgresql" ++ version ++ "/").toList ++ (['*'] ++ ".plist".toList) := by simp
  have read := directory.append (every.append kind)
  rw [← parts] at read
  rw [← ofWord_active (List.mem_append_right _ List.mem_cons_self) (by simp [unquoted])]
  exact .word read

theorem postgreSql_installs (literal : Literal version) : postgreSql.Installs version := by
  intro x more text
  have steps : Recipe.postgreSql (Command.arguments ⟨"Install", some "PostgreSQL", x :: more⟩) =
      .scripts [Shell.banner "Installing PostgreSQL",
        "brew install postgresql" ++ version ++ "\nrm -rf /usr/local/var/postgres/\n"
          ++ "initdb /usr/local/var/postgres -E UTF8\nmkdir -p ~/Library/LaunchAgents\n"
          ++ "ln -sfv /usr/local/opt/postgresql" ++ version ++ "/*.plist ~/Library/LaunchAgents"] := by
    rw [Recipe.postgreSql, Command.arguments, version?_of_text? text]
    rfl
  refine ⟨_, _, Command.runs_of_resolve _ rfl steps, Reads.carried ?_ ?_⟩
  · have command : Reads "brew install" (["brew", "install"].map .argument) := by decide
    have package : Reads ("postgresql" ++ version) [.argument ("postgresql" ++ version)] :=
      .plain (by simp) (literal.append (List.all_iff_forall_prop.mp rfl))
    have setup : Reads ("rm -rf /usr/local/var/postgres/\n" ++
        "initdb /usr/local/var/postgres -E UTF8\nmkdir -p ~/Library/LaunchAgents\n" ++ "ln -sfv")
        (["rm", "-rf", "/usr/local/var/postgres/"].map .argument ++
          .lineEnd :: ["initdb", "/usr/local/var/postgres", "-E", "UTF8"].map .argument ++
          .lineEnd :: ["mkdir", "-p"].map .argument ++ agents ::
          .lineEnd :: ["ln", "-sfv"].map .argument) := by decide +kernel
    have read := (command.blank package).lineFeed ((setup.blank (reads_plists literal)).blank reads_agents)
    have first : "brew install postgresql" = "brew install" ++ " " ++ "postgresql" := by decide
    have second : "\nrm -rf /usr/local/var/postgres/\n" = "\n" ++ "rm -rf /usr/local/var/postgres/\n" := by decide
    have third : "ln -sfv /usr/local/opt/postgresql" = "ln -sfv" ++ " " ++ "/usr/local/opt/postgresql" := by decide
    have fourth : "/*.plist ~/Library/LaunchAgents" = "/*.plist" ++ " " ++ "~/Library/LaunchAgents" := by decide
    rw [first, second, third, fourth]
    simp only [String.append_assoc] at read ⊢
    exact read
  · have last : Text.trimEnd "/*.plist ~/Library/LaunchAgents".toList = "/*.plist ~/Library/LaunchAgents".toList := by
      decide
    rw [String.toList_append, Text.trimEnd_append (by decide) last]

theorem reads_rbenvHook :
    Reads "echo 'if which rbenv > /dev/null; then eval \"$(rbenv init -)\"; fi' >> ~/.bash_profile"
      (["echo", rbenvHook].map .argument ++ [.operator ">>", profile]) := by
  have command : Reads "echo" [.argument "echo"] := by decide
  have hook : Reads ("\x27" ++ rbenvHook ++ "\x27") [.argument rbenvHook] := .singleQuote (by decide)
  have target : Reads ">> ~/.bash_profile" [.operator ">>", profile] := by decide +kernel
  have words : "echo 'if which rbenv > /dev/null; then eval \"$(rbenv init -)\"; fi' >> ~/.bash_profile" =
      "echo" ++ " " ++ ("\x27" ++ rbenvHook ++ "\x27") ++ " " ++ ">> ~/.bash_profile" := by decide +kernel
  rw [words]
  exact (command.blank hook).blank target

theorem ruby_installs (nonempty : version ≠ "") (literal : Literal version) : ruby.Installs version := by
  intro x more text
  have steps : Recipe.ruby (Command.arguments ⟨"Install", some "Ruby", x :: more⟩) =
      .scripts [Shell.banner ("Installing Ruby (" ++ version ++ ")"),
        "brew install apple-gcc42\nbrew install rbenv\nbrew install ruby-build\nrbenv install "
          ++ version ++ "\nrbenv global " ++ version ++ "\nrbenv rehash\n"
          ++ "echo 'if which rbenv > /dev/null; then eval \"$(rbenv init -)\"; fi' >> ~/.bash_profile"] := by
    rw [Recipe.ruby, Command.arguments, version?_of_text? text]
    rfl
  refine ⟨_, _, Command.runs_of_resolve _ rfl steps, Reads.carried ?_ ?_⟩
  · have command : Reads
        "brew install apple-gcc42\nbrew install rbenv\nbrew install ruby-build\nrbenv install" ruby.before := by
      decide +kernel
    have word : Reads version [.argument version] := .plain nonempty fun c mem => (literal c mem).1
    have choice : Reads "rbenv global" (["rbenv", "global"].map .argument) := by decide
    have rehash : Reads "rbenv rehash" (["rbenv", "rehash"].map .argument) := by decide
    have read := (command.blank word).lineFeed ((choice.blank word).lineFeed (rehash.lineFeed reads_rbenvHook))
    have first : "brew install apple-gcc42\nbrew install rbenv\nbrew install ruby-build\nrbenv install " =
        "brew install apple-gcc42\nbrew install rbenv\nbrew install ruby-build\nrbenv install" ++ " " := by
      decide +kernel
    have second : "\nrbenv global " = "\n" ++ "rbenv global" ++ " " := by decide
    have third : "\nrbenv rehash\n" = "\n" ++ "rbenv rehash" ++ "\n" := by decide
    rw [first, second, third]
    simp only [String.append_assoc] at read ⊢
    exact read
  · have last : Text.trimEnd
        "echo 'if which rbenv > /dev/null; then eval \"$(rbenv init -)\"; fi' >> ~/.bash_profile".toList =
        "echo 'if which rbenv > /dev/null; then eval \"$(rbenv init -)\"; fi' >> ~/.bash_profile".toList := by
      decide +kernel
    rw [String.toList_append, Text.trimEnd_append (by decide) last]

end Installer

open Installer in
/-- A gem is installed at any version that is asked for. A version that is written as it is has to be literal, and
Ruby's must not be empty. -/
theorem versions_literal (version : String) :
    (∀ i ∈ quotingInstallers, i.Installs version) ∧
    ∀ i ∈ splicingInstallers, Literal version → i.product ++ version ≠ "" → i.Installs version := by
  constructor
  · intro i shipped
    simp only [quotingInstallers, List.mem_cons, List.not_mem_nil, or_false] at shipped
    rcases shipped with rfl | rfl | rfl
    · exact gem_installs rfl (by decide) version
    · exact gem_installs rfl (by decide) version
    · exact gem_installs rfl (by decide) version
  · intro i shipped literal nonempty
    simp only [splicingInstallers, List.mem_cons, List.not_mem_nil, or_false] at shipped
    rcases shipped with rfl | rfl | rfl | rfl
    · exact npm_installs rfl (List.all_iff_forall_prop.mp rfl) literal
    · exact npm_installs rfl (List.all_iff_forall_prop.mp rfl) literal
    · exact postgreSql_installs literal
    · exact ruby_installs (by simpa [Installer.ruby] using nonempty) literal

theorem versions_literal_postgreSql : Installer.Literal "93" ∧ Installer.postgreSql.Installs "93" :=
  have literal : Installer.Literal "93" := by decide
  ⟨literal, (versions_literal "93").2 .postgreSql (by simp [splicingInstallers]) literal (by decide)⟩

/-- A range of versions is no argument of the command: what it writes goes to a file. -/
theorem range_redirects :
    tokens? "npm install bower@>=1.3" =
      some [.argument "npm", .argument "install", .argument "bower@", .operator ">", .argument "=1.3"] ∧
    Command.Runs ⟨"Install", some "Bower", [.string ">=1.3"]⟩
      [Shell.banner "installing bower (>=1.3)", "npm install bower@>=1.3"] ∧
    ¬(Installer.npm "Bower" "bower").Installs ">=1.3" := by
  have runs : Command.Runs ⟨"Install", some "Bower", [.string ">=1.3"]⟩
      [Shell.banner "installing bower (>=1.3)", "npm install bower@>=1.3"] :=
    Command.runs_of_resolve _ rfl rfl
  have short : Reads "npm install bower@>=1.3"
      [.argument "npm", .argument "install", .argument "bower@", .operator ">", .argument "=1.3"] := by decide
  refine ⟨short.tokens, runs, fun installs => ?_⟩
  obtain ⟨message, code, claimed, -, carries⟩ := installs (.string ">=1.3") [] rfl
  have texts := claimed.texts runs
  have script : inDirectory code "." = inDirectory "npm install bower@>=1.3" "." :=
    (List.cons.inj (List.cons.inj texts).2).1
  -- The script carries what it is read as, and not the claimed tokens.
  have header : tokens? (opening ".") = some _ := tokens?_opening (by decide) (List.all_iff_forall_prop.mp rfl)
  have read := (short.carried (by decide)).2 "." _ header
  rw [← script, carries "." _ header] at read
  exact absurd read (by decide)

end Recipe

end Provisioning
