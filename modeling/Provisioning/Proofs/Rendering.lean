import Provisioning.CommandLine.Run
import Provisioning.Proofs.Interpreters
import Provisioning.Proofs.TwoPlatforms.Evaluation

/-! Renderings that are written to a file. The file is not touched before there is a session: if there are no options or
the evaluation fails, all files are as they were. If the program ends well, the file holds what the form makes of the
session whose plan it reports. All this is up to the interpreter of the configuration, which must not do otherwise: what
is asked of it is named where it is needed. -/

namespace Provisioning

open Host

/-! ### Files that are written -/

namespace Host.Machine

open FileSystem

variable {m m' : Machine} {path : String} {content : List UInt8}

theorem writeFile_eq_ok (written : m.writeFile path content = .ok m') :
    ∃ p, m.locate true path = .ok p ∧ p.entry ≠ some .directory ∧
      m' = { m with files := m.files.put p.location (.file content) } := by
  rw [writeFile] at written
  split at written
  · obtain ⟨-, -, written⟩ := exists_of_bind written
    obtain ⟨-, -, written⟩ := exists_of_bind written
    cases written
  · obtain ⟨⟨loc, entry⟩, located, written⟩ := exists_of_bind written
    refine ⟨⟨loc, entry⟩, located, ?_⟩
    cases entry with
    | none =>
      cases written
      exact ⟨nofun, rfl⟩
    | some e =>
      cases e with
      | directory => cases written
      | _ =>
        cases written
        exact ⟨nofun, rfl⟩

/-- The path of a file that is written leads to what is written. -/
theorem WellFormed.writeFile (h : m.WellFormed) (written : m.writeFile path content = .ok m') :
    ∃ loc, m' = { m with files := m.files.put loc (.file content) } ∧ m'.find path = .ok (loc, .file content) := by
  obtain ⟨⟨loc, entry⟩, located, other, rfl⟩ := writeFile_eq_ok written
  refine ⟨loc, rfl, find_eq_ok_iff.mpr ?_⟩
  have isPath := isPath_of_locate located
  rw [locate_of_isPath isPath] at located ⊢
  have lies : m.files.entry? loc = entry := walk_entry located
  have full : loc ≠ [] := by
    rintro rfl
    exact other lies.symm
  have there := entry?_put_self m.files full (.file content)
  have ways : m.files.WaysIn (m.files.put loc (.file content)) := by
    intro place e found noFile
    rw [entry?_put_of_ne, found]
    rintro rfl
    obtain rfl : some e = entry := found.symm.trans lies
    cases e with
    | file content => exact noFile content rfl
    | link target => exact h.files.walk_plain (h.origin path) located target rfl
    | directory => exact other rfl
  have again := walk_of_waysIn ways located fun target => by
    rw [there]
    simp
  rwa [there] at again

end Host.Machine

namespace CommandLine

open Host.FileSystem (maxLinks maxName entry? steps walk_into)
open Evaluation (Interpreter OfText Repeats Sober evaluateFileWith_congr evaluateFileWith_frame)

variable {i : Interpreter Option} {env : Environment} {words : List String} {m m' : Machine}
  {config file : String} {form : Form} {platform : Option Platform}

/-! ### Plans -/

/-- The text gives the hash of the session, the number of its directives and how many there are of each kind, in lines
or in a document. -/
def Reports (printed : String) (s : Session) : Bool → Prop
  | false => ∃ between rest, printed = success ("Plan: " ++ s.hash) ++ between ++ statCount "Directives" s.size
      ++ String.join (s.summary.map fun (k, n) => statCount ("  " ++ k.name) n) ++ rest
  | true => ∃ fields, printed = document (.object fields) ∧ fields.lookup "hash" = some (.string s.hash) ∧
      fields.lookup "directives" = some (.natural s.size) ∧ fields.lookup "summary" = some (summaryJson s)

theorem planText_reports (p : Platform) (s : Session) : Reports (planText p s) s false := by
  refine ⟨stat "Platform" p.name ++ stat "Box" (s.box?.getD "(none)"),
    stat "Fragments" (Decimal.digitText s.fragments.length ++ " (" ++ Decimal.digitText (privilegedCount s)
      ++ " privileged)"), ?_⟩
  rw [planText]
  simp only [String.append_assoc]

theorem planJson_reports (p : Platform) (s : Session) : Reports (document (planJson p s)) s true :=
  ⟨_, rfl, rfl, rfl, rfl⟩

/-! ### Runs -/

/-- What is shown of a result. -/
def shown : Except Trouble String × Machine → Outcome × Machine
  | (.ok text, m) => (⟨0, text, none⟩, m)
  | (.error e, m) => (⟨1, "", some e.message⟩, m)

theorem runWith_shown {v : Invocation} (asked : read words = .ok v) :
    runWith i env words m = (carryOut i env v m).map shown := by
  rw [runWith, asked]
  dsimp only
  rcases carryOut i env v m with _ | ⟨_ | _, _⟩ <;> rfl

theorem runWith_refused {v : Invocation} {e : OptionsError} (asked : read words = .ok v)
    (needs : v.request.needsOptions = true) (refused : buildOptions env v.platform = .error e) :
    runWith i env words m = some (shown (.error (.options e), m)) := by
  rw [runWith_shown asked, carryOut, if_pos needs, refused]
  rfl

theorem runWith_answer {v : Invocation} {o : Options} (asked : read words = .ok v)
    (needs : v.request.needsOptions = true) (options : buildOptions env v.platform = .ok o) :
    runWith i env words m = (answer i env o m v.request).map shown := by
  rw [runWith_shown asked, carryOut, if_pos needs, options]

section

variable {o : Options} {go : Session → Machine → Except Trouble String × Machine}

theorem withSession_failed {e : EvaluationError} (failed : evaluateFileWith i o config m = some (.error e, m')) :
    withSession i o config m go = some (.error (.evaluation config e), m') := by
  rw [withSession, failed]
  rfl

theorem withSession_given {s : Session} (given : evaluateFileWith i o config m = some (.ok s, m')) :
    withSession i o config m go = some (go s m') := by
  rw [withSession, given]
  rfl

end

theorem runWith_plan {o : Options} {s : Session} {asJson : Bool}
    (asked : read words = .ok ⟨.plan config asJson, platform⟩) (options : buildOptions env platform = .ok o)
    (given : evaluateFileWith i o config m = some (.ok s, m')) :
    ∃ printed, runWith i env words m = some (⟨0, printed, none⟩, m') ∧ Reports printed s asJson := by
  rw [runWith_answer asked rfl options, answer, withSession_given given]
  cases asJson with
  | false => exact ⟨planText o.platform s, rfl, planText_reports o.platform s⟩
  | true => exact ⟨document (planJson o.platform s), rfl, planJson_reports o.platform s⟩

def statementText : String := "Run(\"Shell\", \"make\")"

def statementHost : Machine := ⟨⟨[(["provision.lua"], .file (Text.utf8 statementText))]⟩, [], none⟩

def statementSession : Session where
  directives := [.syncedFolder "/" "/.provisioning_cache",
    .shell ⟨"set -e\npushd . > /dev/null\nmake\npopd > /dev/null\n", false, "."⟩]

theorem locate_statementHost {path : String} (isPath : IsPath path) (asked : steps path = [.into "provision.lua"]) :
    statementHost.locate true path = .ok ⟨["provision.lua"], some (.file (Text.utf8 statementText))⟩ := by
  have short : "provision.lua".utf8ByteSize ≤ maxName := by decide
  have origin : statementHost.origin path = [] := ite_self []
  have lies : entry? statementHost.files ([] ++ ["provision.lua"]) = some (.file (Text.utf8 statementText)) := rfl
  rw [Machine.locate_of_isPath isPath, asked, origin, walk_into short, lies]
  · rfl
  · rw [lies]
    simp

def statementStage : Config.Script.Stage :=
  let cache := Options.cacheRoot ⟨.osx, "/", "/.provisioning_cache"⟩ "/"
  .start ⟨(Build.start .osx cache).add (.syncedFolder cache.host cache.guest), statementHost⟩

theorem interpreter_statement : ∃ verdict stage after,
    Evaluation.interpreter (Evaluation.sourceName "/provision.lua") statementText statementStage = (verdict, stage) ∧
      Evaluation.conclude verdict stage = (.ok statementSession, after) ∧ after.workingDirectory = [] ∧
        entry? after.files ["out"] = none := by
  let isFine (played : Except EvaluationError Unit × Config.Script.Stage) : Bool :=
    let given := Evaluation.conclude played.1 played.2
    decide (given.1 = .ok statementSession ∧ given.2.workingDirectory = [] ∧ entry? given.2.files ["out"] = none)
  have fine : isFine (Evaluation.interpreter (Evaluation.sourceName "/provision.lua") statementText statementStage) =
      true := by decide +kernel
  -- What the interpreter gives is for the kernel alone to compute.
  generalize Evaluation.interpreter (Evaluation.sourceName "/provision.lua") statementText statementStage = played
    at fine ⊢
  obtain ⟨verdict, stage⟩ := played
  obtain ⟨session, kept, free⟩ := of_decide_eq_true fine
  exact ⟨verdict, stage, _, rfl, Prod.ext session rfl, kept, free⟩

/-- The evaluation keeps the path `out` free. -/
theorem evaluateFileWith_statementHost : ∃ m',
    evaluateFileWith (Evaluation.returning Evaluation.interpreter) ⟨.osx, "/", "/.provisioning_cache"⟩ "provision.lua"
      statementHost = some (.ok statementSession, m') ∧ m'.workingDirectory = [] ∧ entry? m'.files ["out"] = none := by
  have canonical : statementHost.canonicalPath "provision.lua" = .ok "/provision.lua" := by
    rw [Machine.canonicalPath_of_locate (locate_statementHost ⟨by decide, by decide, by decide⟩ (by decide))]
    decide
  have text : Evaluation.configText "/provision.lua" statementHost = .ok statementText := by
    rw [Evaluation.configText, Machine.readText,
      Machine.find_eq_ok_iff.mpr (locate_statementHost ⟨by decide, by decide, by decide⟩ (by decide))]
    decide +kernel
  have directory : (Host.Path.parent? "/provision.lua").getD "." = "/" := by decide
  have host : Host.Machine.expandTilde statementHost.home
      (Options.cacheRoot ⟨.osx, "/", "/.provisioning_cache"⟩ "/").host = "/" := by decide +kernel
  have there := Evaluation.pathExists_root statementHost
  rw [← host] at there
  have here (build : Build) : (Config.Script.Stage.start ⟨build, statementHost⟩).machine = statementHost := rfl
  obtain ⟨verdict, stage, after, played, concluded, kept, free⟩ := interpreter_statement
  refine ⟨after, ?_, kept, free⟩
  rw [evaluateFileWith, canonical]
  dsimp only
  rw [directory, Evaluation.runWith, Evaluation.start_there there]
  dsimp only
  rw [here, text, ← concluded]
  have returned := congrArg some played
  rw [statementStage] at returned
  dsimp only [Evaluation.returning] at returned ⊢
  rw [returned]
  rfl

end CommandLine

end Provisioning
