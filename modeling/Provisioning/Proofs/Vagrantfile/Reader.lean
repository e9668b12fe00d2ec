import Provisioning.Proofs.Text.Lines
import Provisioning.Session.Vagrantfile

/-! Reading a Vagrantfile back. A literal ends at its first quote without a backslash before it, a backslash
stands for the character after it, and an insertion is refused; a here-document ends before the first line
that equals its delimiter without the blanks around it. Between literals and scripts only the words of the
program stand. -/

namespace Provisioning.Session.Vagrantfile

/-- The text after a word at its front. -/
def after (word : String) (cs : List Char) : Option (List Char) := word.toList.isPrefixOf? cs

/-- The characters of a literal after its opening quote, and the text after its closing one. -/
def readInside : List Char → Option (List Char × List Char)
  | [] => none
  | '\x22' :: rest => some ([], rest)
  | '\\' :: c :: rest => (readInside rest).map fun (s, r) => (c :: s, r)
  | c :: rest =>
    -- An insertion begins with a number sign.
    if c = '\\' ∨ c = '#' then none else (readInside rest).map fun (s, r) => (c :: s, r)

def readLiteral (cs : List Char) : Option (String × List Char) := do
  let rest ← after "\"" cs
  let (s, rest) ← readInside rest
  return (String.ofList s, rest)

def readFlag (cs : List Char) : Option (Bool × List Char) :=
  match after "true" cs with
  | some rest => some (true, rest)
  | none => (after "false" cs).map fun rest => (false, rest)

def readPort (cs : List Char) : Option (UInt16 × List Char) :=
  let n := Decimal.ofDigits (cs.takeWhile Char.isDigit)
  if n < 65536 then some (UInt16.ofNat n, cs.dropWhile Char.isDigit) else none

/-- The lines of a here-document before the line that ends it, and the text after that line. -/
def readBody (ending cs : List Char) : Option (List Char × List Char) :=
  match _h : Text.splitOnce? '\n' cs with
  | none => none
  | some (line, rest) =>
    if Text.trim line = ending then some ([], rest)
    else (readBody ending rest).map fun (body, r) => (line ++ '\n' :: body, r)
termination_by cs.length
decreasing_by exact Text.length_of_splitOnce? _h

/-! ### Directives -/

/-- The words in front of a directive of a kind. -/
def opening : Kind → String
  | .box => "  config.vm.box = "
  | .provider => "  config.vm.provider "
  | .syncedFolder => "  config.vm.synced_folder "
  | .forwardedPort => "  config.vm.network \"forwarded_port\", guest: "
  | .fileCopy => "  config.vm.provision :file, source: "
  | .shell => "  config.vm.provision :shell, privileged: "

def readBox (cs : List Char) : Option (Directive × List Char) := do
  let (name, cs) ← readLiteral cs
  let cs ← after "\n" cs
  return (.box name, cs)

def readProvider (cs : List Char) : Option (Directive × List Char) := do
  let (driver, cs) ← readLiteral cs
  let cs ← after " do |vm|\n    vm.name = " cs
  let (name, cs) ← readLiteral cs
  let cs ← after "\n    vm.gui = " cs
  let (gui, cs) ← readFlag cs
  let cs ← after "\n  end\n" cs
  return (.provider driver name gui, cs)

def readForwardedPort (cs : List Char) : Option (Directive × List Char) := do
  let (guest, cs) ← readPort cs
  let cs ← after ", host: " cs
  let (host, cs) ← readPort cs
  let cs ← after "\n" cs
  return (.forwardedPort guest host, cs)

/-- A path of the host and a path of the guest, and the words between them. -/
def readPaths (between : String) (cs : List Char) : Option ((String × String) × List Char) := do
  let (host, cs) ← readLiteral cs
  let cs ← after between cs
  let (guest, cs) ← readLiteral cs
  let cs ← after "\n" cs
  return ((host, guest), cs)

/-- The directory of a script is in no Vagrantfile. -/
def readShell (cs : List Char) : Option (Directive × List Char) := do
  let (privileged, cs) ← readFlag cs
  let cs ← after ", inline: <<-'" cs
  let (ending, cs) ← Text.splitOnce? '\x27' cs
  let cs ← after "\n" cs
  let (body, cs) ← readBody ending cs
  return (.shell ⟨String.ofList body, privileged, ""⟩, cs)

/-- The directive of a kind after its opening, and the text after it. -/
def readRest : Kind → List Char → Option (Directive × List Char)
  | .box, cs => readBox cs
  | .provider, cs => readProvider cs
  | .syncedFolder, cs => (readPaths ", " cs).map fun ((host, guest), r) => (.syncedFolder host guest, r)
  | .forwardedPort, cs => readForwardedPort cs
  | .fileCopy, cs =>
    (readPaths ", destination: " cs).map fun ((host, guest), r) => (.fileCopy host guest, r)
  | .shell, cs => readShell cs

/-- The directive at the front of a text, and the text after it. -/
def readDirective (cs : List Char) : Option (Directive × List Char) :=
  Kind.all.findSome? fun k => (after (opening k) cs).bind (readRest k)

/-- Directives up to the end of the program, looking at `fuel` of them at most. -/
def readDirectives : Nat → List Char → Option (List Directive)
  | 0, cs => if cs = "end\n".toList then some [] else none
  | fuel + 1, cs =>
    if cs = "end\n".toList then some []
    else do
      let (d, cs) ← readDirective cs
      let ds ← readDirectives fuel cs
      return d :: ds

/-- The directives of a Vagrantfile. -/
def read? (text : String) : Option (List Directive) := do
  let cs ← after "Vagrant.configure(\"2\") do |config|\n" text.toList
  readDirectives cs.length cs

end Provisioning.Session.Vagrantfile
