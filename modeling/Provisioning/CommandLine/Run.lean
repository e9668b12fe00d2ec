import Provisioning.CommandLine.Report

/-! What the program does for a command line on a host: its exit code, what it prints, and the host
afterwards. -/

namespace Provisioning.CommandLine

/-- Why a request fails. -/
inductive Trouble where
  | options (cause : OptionsError)
  | evaluation (config : String) (cause : EvaluationError)
  | cache (host : String) (cause : Host.IoError)
  | output (path : String) (cause : Host.IoError)
deriving DecidableEq, Repr

/-- The error behind an error, for the end of a message. -/
def because (cause : Option String) : String := (cause.map (": " ++ ·)).getD ""

def optionsCause? : OptionsError → Option String
  | .platform _ e => some e.message
  | .relativeGuestPath .. => none

def evaluationCause? : EvaluationError → Option String
  | .configPath _ e => some e.message
  | .provision (.createDirectory _ e) => some e.message
  | _ => none

/-- Each message is followed by that of its cause, though it may tell of the cause itself. -/
def Trouble.message : Trouble → String
  | .options e => "Invalid build options in environment: " ++ e.message ++ because (optionsCause? e)
  | .evaluation config e =>
    "Failed to evaluate config: " ++ config ++ ": " ++ e.message ++ because (evaluationCause? e)
  | .cache host e => "Failed to read cache: " ++ host ++ ": " ++ e.message
  | .output path e => "Failed to create output file: " ++ path ++ ": " ++ e.message

/-- What a run of the program shows. -/
structure Outcome where
  exitCode : UInt8
  printed : String
  /-- The line on the error stream, without its mark. -/
  complaint : Option String
deriving DecidableEq, Repr

/-- The options for a request: those of the environment, with the platform of the command line. The
environment has to be right even where the command line counts. -/
def buildOptions (env : Environment) (platform : Option Platform) : Except OptionsError Options := do
  let o ← Options.ofEnvironment env
  return { o with platform := platform.getD o.platform }

/-- The directory that the cache of a configuration is seen from. -/
def configDirectory (config : String) : String :=
  match Host.Path.parent? config with
  | some directory => if directory.isEmpty then "." else directory
  | none => "."

/-- Hands a session over to a file or to the printed text. -/
def deliver (form : Form) (output : Option String) (s : Session) (m : Host.Machine) :
    Except Trouble String × Host.Machine :=
  match output with
  | none => (.ok (form.text s), m)
  | some path =>
    match m.writeFile path (Text.utf8 (form.text s)) with
    | .error e => (.error (.output path e), m)
    | .ok m =>
      (.ok (success ("Wrote " ++ Decimal.digitText s.size ++ " directives to " ++ path)), m)

def showCache (o : Options) (config : String) (asJson : Bool) (m : Host.Machine) :
    Except Trouble String :=
  let root := o.cacheRoot (configDirectory config)
  match root.holdings m with
  | .error e => .error (.cache root.host e)
  | .ok holdings => .ok (if asJson then document (cacheJson holdings) else cacheText root holdings)

/-- Only the list of recipes needs no options. -/
def Request.needsOptions : Request → Bool
  | .recipes _ => false
  | _ => true

/-- The paths of the host that a run looks at before it makes or writes anything, as far as they can be
told from what is known of the host. -/
def sights (env : Environment) (words : List String) (m : Host.Machine) : List String :=
  match read words with
  | .error _ => []
  | .ok i =>
    match buildOptions env i.platform with
    | .error _ => []
    | .ok o =>
      let beside (config : String) : List String :=
        match m.canonicalPath config with
        | .ok file => [config, (o.cacheRoot ((Host.Path.parent? file).getD ".")).host]
        | .error _ => [config]
      match i.request with
      | .plan config _ => beside config
      | .render config .. => beside config
      | .cache config _ => [(o.cacheRoot (configDirectory config)).host]
      | .recipes _ => []
      | .info => []

section

variable {n : Type → Type} [Monad n]

/-- Evaluates a configuration and goes on with its session. -/
def withSession (i : Evaluation.Interpreter n) (o : Options) (config : String) (m : Host.Machine)
    (go : Session → Host.Machine → Except Trouble String × Host.Machine) :
    n (Except Trouble String × Host.Machine) := do
  match ← evaluateFileWith i o config m with
  | (.error e, m) => return (.error (.evaluation config e), m)
  | (.ok s, m) => return go s m

/-- Does what is asked for, with the options for it. -/
def answer (i : Evaluation.Interpreter n) (env : Environment) (o : Options) (m : Host.Machine) :
    Request → n (Except Trouble String × Host.Machine)
  | .plan config asJson =>
    withSession i o config m fun s m =>
      (.ok (if asJson then document (planJson o.platform s) else planText o.platform s), m)
  | .render config form output => withSession i o config m (deliver form output)
  | .cache config asJson => return (showCache o config asJson m, m)
  | .recipes asJson =>
    return (.ok (if asJson then document (recipesJson Recipe.shipped) else recipesText Recipe.shipped), m)
  | .info => return (.ok (infoText env o), m)

def carryOut (i : Evaluation.Interpreter n) (env : Environment) (asked : Invocation) (m : Host.Machine) :
    n (Except Trouble String × Host.Machine) :=
  if asked.request.needsOptions then
    match buildOptions env asked.platform with
    | .error e => return (.error (.options e), m)
    | .ok o => answer i env o m asked.request
  else answer i env Options.defaults m asked.request

/-- Runs the program with an interpreter for configurations. -/
def runWith (i : Evaluation.Interpreter n) (env : Environment) (words : List String) (m : Host.Machine) :
    n (Outcome × Host.Machine) :=
  match read words with
  | .error .version => return (⟨0, versionText, none⟩, m)
  | .error .help => return (⟨0, helpText, none⟩, m)
  | .error .refused => return (⟨2, "", none⟩, m)
  | .ok asked => do
    match ← carryOut i env asked m with
    | (.ok text, m) => return (⟨0, text, none⟩, m)
    | (.error e, m) => return (⟨1, "", some e.message⟩, m)

end

def run (env : Environment) (words : List String) (m : Host.Machine) : Outcome × Host.Machine :=
  runWith Evaluation.interpreter env words m

end Provisioning.CommandLine
