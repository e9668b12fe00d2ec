import Provisioning.Session
import Provisioning.Text.Blank

/-! The Vagrantfile of a session. Each script is the body of a here-document that ends at a line no line
of the script equals. -/

namespace Provisioning.Session.Vagrantfile

/-- The characters that a literal escapes: those that end it, escape in it or start an insertion. -/
def literalActive : List Char := ['\\', '\x22', '#']

def escapeLiteral : List Char → List Char
  | [] => []
  | c :: cs => if c ∈ literalActive then '\\' :: c :: escapeLiteral cs else c :: escapeLiteral cs

/-- A double-quoted literal. -/
def literal (s : String) : String :=
  String.ofList ('\x22' :: (escapeLiteral s.toList ++ ['\x22']))

/-- The candidates for the line that ends a script. -/
def delimiter : Nat → String
  | 0 => "VMPROV_SCRIPT"
  | n + 1 => "VMPROV_SCRIPT_" ++ Decimal.digitText (n + 1)

/-- The lines of a script without the blanks around them. -/
def trimmedLines (text : String) : List String :=
  (Text.lines text.toList).map fun l => String.ofList (Text.trim l)

/-- The first candidate from `n` on that is not among `taken`, looking at `fuel` more than one. -/
def freeDelimiter (taken : List String) : Nat → Nat → String
  | 0, n => delimiter n
  | fuel + 1, n => if delimiter n ∈ taken then freeDelimiter taken fuel (n + 1) else delimiter n

/-- The line that ends a script. Each candidate that is passed over is another line of the script. -/
def delimiterFor (text : String) : String :=
  freeDelimiter (trimmedLines text) (trimmedLines text).length 0

def endsLine (text : String) : Bool := text.toList.getLast? = some '\n'

def flag (b : Bool) : String := if b then "true" else "false"

def portText (p : UInt16) : String := Decimal.digitText p.toNat

def render : Directive → String
  | .box name => "  config.vm.box = " ++ literal name ++ "\n"
  | .provider driver name gui =>
    "  config.vm.provider " ++ literal driver ++ " do |vm|\n    vm.name = " ++ literal name
      ++ "\n    vm.gui = " ++ flag gui ++ "\n  end\n"
  | .syncedFolder host guest =>
    "  config.vm.synced_folder " ++ literal host ++ ", " ++ literal guest ++ "\n"
  | .forwardedPort guest host =>
    "  config.vm.network \"forwarded_port\", guest: " ++ portText guest ++ ", host: " ++ portText host
      ++ "\n"
  | .fileCopy host guest =>
    "  config.vm.provision :file, source: " ++ literal host ++ ", destination: " ++ literal guest ++ "\n"
  | .shell f =>
    "  config.vm.provision :shell, privileged: " ++ flag f.privileged ++ ", inline: <<-'"
      ++ delimiterFor f.text ++ "'\n" ++ f.text ++ (if endsLine f.text then "" else "\n") ++ "  "
      ++ delimiterFor f.text ++ "\n"

end Provisioning.Session.Vagrantfile

namespace Provisioning.Session

def vagrantfile (s : Session) : String :=
  "Vagrant.configure(\"2\") do |config|\n" ++ String.join (s.directives.map Vagrantfile.render)
    ++ "end\n"

end Provisioning.Session
