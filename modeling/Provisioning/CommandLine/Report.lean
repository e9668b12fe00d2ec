import Provisioning.CommandLine.Request
import Provisioning.Evaluation

/-! The texts that the program prints. -/

namespace Provisioning.CommandLine

def programName : String := "vmprov"
def version : String := "0.1.0"

def success (message : String) : String := "✓ " ++ message ++ "\n"

def note (message : String) : String := "• " ++ message ++ "\n"

/-- A labelled value on a line of its own. -/
def stat (label value : String) : String := "  " ++ label ++ ": " ++ value ++ "\n"

def statCount (label : String) (n : Nat) : String := stat label (Decimal.digitText n)

def document (v : Json) : String := v.pretty ++ "\n"

def versionText : String := programName ++ " " ++ version ++ "\n"

def helpText : String :=
  "Usage: " ++ programName ++ " [OPTIONS] <COMMAND>\n\nCommands:\n"
    ++ String.join (Verb.all.map fun v => "  " ++ v.name ++ "\n")

/-! ### Plans -/

def privilegedCount (s : Session) : Nat := (s.fragments.filter (·.privileged)).length

def planText (platform : Platform) (s : Session) : String :=
  success ("Plan: " ++ s.hash) ++ stat "Platform" platform.name
    ++ stat "Box" (s.box?.getD "(none)") ++ statCount "Directives" s.size
    ++ String.join (s.summary.map fun (k, n) => statCount ("  " ++ k.name) n)
    ++ stat "Fragments" (Decimal.digitText s.fragments.length ++ " ("
      ++ Decimal.digitText (privilegedCount s) ++ " privileged)")

/-- Kinds in ascending order of their names. -/
def summaryJson (s : Session) : Json :=
  .object ((s.summary.map fun (k, n) => (k.name, Json.natural n)).mergeSort fun a b => a.1 ≤ b.1)

def planJson (platform : Platform) (s : Session) : Json :=
  .object [("box", .ofText? s.box?), ("directives", .natural s.size),
    ("fragments", .natural s.fragments.length), ("hash", .string s.hash),
    ("platform", .string platform.name), ("privileged", .natural (privilegedCount s)),
    ("summary", summaryJson s)]

/-! ### The cache -/

def holdingText (h : Cache.Root.Holding) : String :=
  note h.url ++ String.join (h.files.map fun file => "    " ++ file ++ "\n")

def cacheText (root : Cache.Root) (holdings : List Cache.Root.Holding) : String :=
  stat "Host" root.host ++ stat "Guest" root.guest ++ "\n"
    ++ if holdings.isEmpty then note "Cache is empty."
      else String.join (holdings.map holdingText)

def cacheJson (holdings : List Cache.Root.Holding) : Json :=
  .array (holdings.map fun h => .object [("url", .string h.url), ("path", .string h.path),
    ("files", .array (h.files.map Json.string))])

/-! ### Recipes -/

/-- A text with blanks after it, `width` characters at least. -/
def padded (width : Nat) (s : String) : String :=
  s ++ String.ofList (List.replicate (width - s.length) ' ')

def actionText (action : String) (platforms : List Platform) : String :=
  "  " ++ padded 24 action ++ " " ++ ", ".intercalate (platforms.map Platform.name) ++ "\n"

def recipesText (r : Registry Recipe) : String :=
  String.join (r.subjects.map fun subject =>
    subject ++ "\n" ++ String.join ((r.actions subject).map fun (a, ps) => actionText a ps))

def recipesJson (r : Registry Recipe) : Json :=
  .object (r.subjects.map fun subject =>
    (subject, .object ((r.actions subject).map fun (a, ps) =>
      (a, .array (ps.map fun p => .string p.name)))))

/-! ### Defaults -/

def infoText (env : Environment) (o : Options) : String :=
  versionText ++ stat "Platform" o.platform.name ++ stat "Config file" defaultConfig
    ++ stat "Cache (host)" o.cacheHost ++ stat "Cache (guest)" o.cacheGuest ++ "\nEnvironment:\n"
    ++ String.join (Options.variableNames.map fun name => stat name ((env.lookup name).getD "(unset)"))

end Provisioning.CommandLine
