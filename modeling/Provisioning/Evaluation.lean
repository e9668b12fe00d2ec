import Provisioning.Config.Evaluate
import Provisioning.Config.Grammar
import Provisioning.Options
import Provisioning.Recipe.Shipped

/-! Evaluating a configuration: the cache's folder is bound first, then the program runs, and the session
is given only if no statement failed and the program came to its end. -/

namespace Provisioning

/-- Why there is no session. -/
inductive EvaluationError where
  | configPath (path : String) (cause : Host.IoError)
  /-- The text is no program. -/
  | malformed
  | complaint (c : Config.Complaint)
  | provision (failure : Failure)
  /-- The program did not end. -/
  | endless
deriving DecidableEq, Repr

def EvaluationError.message : EvaluationError → String
  | .configPath path e => "cannot resolve config path " ++ path ++ ": " ++ e.message
  | .malformed => "lua error: malformed program"
  | .complaint c => "lua error: " ++ c.message
  | .provision e => e.message
  | .endless => "lua error: endless program"

namespace Evaluation

open Config.Script (Stage)

/-- The statement that binds the cache's folder. -/
def bindCache (cache : Cache.Root) : Command where
  subject := "Setup"
  action := some "SyncedFolder"
  values := [.ofFields [("host", .string cache.host), ("guest", .string cache.guest)]]

/-- A build whose only directive binds the cache's folder. -/
def start (o : Options) (directory : String) (m : Host.Machine) : Except Failure Unit × Site :=
  let cache := o.cacheRoot directory
  let block : Option (Nested Unit Unit) := none
  let (r, (site, ())) :=
    (Recipe.shipped.dispatch (bindCache cache) block).runOn (⟨.start o.platform cache, m⟩, ())
  (r, site)

/-- A language for configurations, as far as a build knows it: what its blocks and its programs end with. -/
structure Language where
  Ending : Type
  /-- Whether a block failed. -/
  report : Ending → Except String Unit
  /-- What a program comes to if no statement failed. -/
  verdict : Ending → Except EvaluationError Unit

abbrev Language.Script (L : Language) : Type 1 := Config.Script L.Ending L.Ending

def Language.perform (L : Language) (script : L.Script) (stage : Stage) : Except EvaluationError Unit × Stage :=
  let (ending, stage) := script.run Recipe.shipped L.report stage
  (L.verdict ending, stage)

/-- A text that is no program fails before its first statement. -/
def Language.play (L : Language) (script : Except EvaluationError L.Script) (stage : Stage) :
    Except EvaluationError Unit × Stage :=
  match script with
  | .error e => (.error e, stage)
  | .ok script => L.perform script stage

/-- The session of a program that came to `verdict`. The first failed statement counts more than what the program
makes of it. -/
def conclude (verdict : Except EvaluationError Unit) (stage : Stage) :
    Except EvaluationError Session × Host.Machine :=
  let result : Except EvaluationError Session :=
    match stage.failure with
    | some e => .error (.provision e)
    | none => verdict.map fun () => stage.site.build.session
  (result, stage.site.machine)

section

variable {n : Type → Type} [Monad n]

/-- Evaluates what `play` plays after the cache's folder is bound. -/
def runWith (o : Options) (directory : String) (play : Stage → n (Except EvaluationError Unit × Stage))
    (m : Host.Machine) : n (Except EvaluationError Session × Host.Machine) :=
  match start o directory m with
  | (.error e, site) => pure (.error (.provision e), site.machine)
  | (.ok (), site) => do
    let (verdict, stage) ← play (.start site)
    return conclude verdict stage

end

/-- Evaluates the script that `load` finds on the host after the cache's folder is bound. -/
def run (L : Language) (o : Options) (directory : String)
    (load : Host.Machine → Except EvaluationError L.Script) (m : Host.Machine) :
    Except EvaluationError Session × Host.Machine :=
  let play (stage : Stage) : Id (Except EvaluationError Unit × Stage) := L.play (load stage.machine) stage
  runWith o directory play m

/-! ### Programs -/

/-- The code of a text with a name. A text that nests too deep is refused like a program that calls too
deep. -/
def code (source text : String) : Except EvaluationError Config.Code :=
  match Config.Program.ofText text with
  | .error .malformed => .error .malformed
  | .error .tooDeep => .error (.complaint (.raised Config.Machine.calls))
  | .ok p =>
    match p.code? source with
    | some code => .ok code
    | none => .error .malformed

/-- The number of bytes that the name of a file may have in positions. -/
def maxSource : Nat := 59

/-- The name of a file in positions; of a long name, the end. -/
def sourceName (file : String) : String :=
  let bytes := Text.utf8 file
  if bytes.length ≤ maxSource then file
  else "..." ++ Config.Memory.shown (bytes.drop (bytes.length - (maxSource - 3)))

/-- What a program comes to that ended. -/
def verdict (e : Config.Ending) : Except EvaluationError Unit :=
  if e.memory.exhausted then .error .endless
  else
    match e.raised with
    | some v => .error (.complaint (e.memory.complaint v))
    | none => .ok ()

def language : Language := ⟨Config.Ending, Config.Ending.report, verdict⟩

/-- The script of a program. -/
def programScript (code : Config.Code) : language.Script :=
  (Config.Routine.runProgram Recipe.shipped code).ending .initial

def textScript (source text : String) : Except EvaluationError language.Script :=
  (code source text).map programScript

/-- What plays the text of a configuration, named by its source, on a stage. It runs in a monad, since it may do other
things than to come to an end. -/
abbrev Interpreter (n : Type → Type) : Type :=
  (source text : String) → Stage → n (Except EvaluationError Unit × Stage)

/-- The interpreter that runs texts as programs of the language. -/
def interpreter : Interpreter Id := fun source text => language.play (textScript source text)

/-- The text of the configuration in a file. -/
def configText (file : String) (m : Host.Machine) : Except EvaluationError String :=
  (m.readText file).mapError fun e =>
    .complaint (.fault (.statement ("cannot read '" ++ file ++ "': " ++ e.message)))

end Evaluation

/-- Evaluates a text as a configuration in a directory. -/
def evaluateText (o : Options) (directory text : String) (m : Host.Machine) :
    Except EvaluationError Session × Host.Machine :=
  Evaluation.runWith o directory (Evaluation.interpreter "config" text) m

/-- Evaluates a file of the host with an interpreter. The cache lies beside the file that the path leads to. -/
def evaluateFileWith {n : Type → Type} [Monad n] (i : Evaluation.Interpreter n) (o : Options) (path : String)
    (m : Host.Machine) : n (Except EvaluationError Session × Host.Machine) :=
  match m.canonicalPath path with
  | .error e => pure (.error (.configPath path e), m)
  | .ok file =>
    let play (stage : Config.Script.Stage) : n (Except EvaluationError Unit × Config.Script.Stage) :=
      match Evaluation.configText file stage.machine with
      | .error e => pure (.error e, stage)
      | .ok text => i (Evaluation.sourceName file) text stage
    Evaluation.runWith o ((Host.Path.parent? file).getD ".") play m

def evaluateFile (o : Options) (path : String) (m : Host.Machine) :
    Except EvaluationError Session × Host.Machine :=
  evaluateFileWith Evaluation.interpreter o path m

/-- What statements given as data come to, and the build and the first failure after them. -/
def performStatements (statements : List Config.Statement) (site : Site) :
    List (List Config.Outcome) × Config.Script.Stage :=
  let script := (Config.Routine.performEach Recipe.shipped statements).script .initial
  let ((outcomes, _), stage) := script.run Recipe.shipped Config.Ending.report (.start site)
  (outcomes.toOption.getD [], stage)

end Provisioning
