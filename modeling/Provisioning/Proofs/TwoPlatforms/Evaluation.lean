import Provisioning.Proofs.Evaluation
import Provisioning.Proofs.TwoPlatforms.Script

/-! The main statement on platforms: a configuration that gives a session for one system gives the same session
for a system that has all of its recipes. -/

namespace Provisioning.Evaluation

open Config.Script

variable {L : Language} {o : Options} {directory : String} {load : Host.Machine → Except EvaluationError L.Script}
  {m : Host.Machine}

theorem start_on (o : Options) (directory : String) (m : Host.Machine) (p : Platform) :
    start { o with platform := p } directory m = ((start o directory m).1, (start o directory m).2.on p) := by
  rw [start_eq { o with platform := p }, start_eq o]
  exact (Recipe.syncedFolder (bindCache (o.cacheRoot directory)).arguments).perform_on
    ⟨.start o.platform (o.cacheRoot directory), m⟩ p

/-- A script that gives a session on one platform gives the same on another one. -/
theorem finish_on {p q : Platform} (covers : Recipe.shipped.Covers p q) {script : L.Script} (site : Site)
    (home : site.build.platform = p) {session : Session} (h : (finish L script site).1 = .ok session) :
    finish L script (site.on q) = finish L script site := by
  have fine := firstFailure_eq_none.mp (finish_ok h).1
  have start : Stage.start (site.on q) = (Stage.start site).on q := rfl
  have here : (Stage.start site).site.build.platform = p := home
  obtain ⟨same, -⟩ := run_carries covers L.report script here fine
  rw [finish, finish, Language.perform, Language.perform, start, same]
  rfl

theorem run_on {p q : Platform} (covers : Recipe.shipped.Covers p q) {session : Session}
    (h : (run L { o with platform := p } directory load m).1 = .ok session) :
    run L { o with platform := q } directory load m = run L { o with platform := p } directory load m := by
  rw [run_eq] at h ⊢
  rw [run_eq]
  rw [start_on o directory m p] at h ⊢
  rw [start_on o directory m q]
  generalize start o directory m = started at h ⊢
  obtain ⟨e | _, site⟩ := started
  · cases h
  · have machine : (site.on q).machine = (site.on p).machine := rfl
    dsimp only at h ⊢
    rw [machine]
    cases loaded : load (site.on p).machine with
    | error e => rfl
    | ok script =>
      rw [loaded] at h
      exact finish_on covers (site.on p) rfl h

/-- What succeeds on Linux has the same effect on OS X: whole evaluations, and scripts statement by statement and
inside of blocks. -/
theorem linux_session_on_osx (o : Options) :
    (∀ (L : Language) (directory : String) (load : Host.Machine → Except EvaluationError L.Script) (m : Host.Machine)
      (session : Session), (run L { o with platform := .linux } directory load m).1 = .ok session →
        run L { o with platform := .osx } directory load m = run L { o with platform := .linux } directory load m ∧
          (run L { o with platform := .osx } directory load m).1.map Session.hash = .ok session.hash) ∧
      ∀ {ω α : Type} (report : ω → Except String Unit) (script : Config.Script ω α) (stage : Stage),
        stage.site.build.platform = .linux →
          let (result, after) := script.run Recipe.shipped report stage
          let (_, _, journal) := watched Recipe.shipped report script (stage, .empty)
          (∀ f ∈ journal.finished, f.outcome = .ok ()) →
            script.run Recipe.shipped report (stage.on .osx) = (result, after.on .osx) ∧
              (watched Recipe.shipped report script (stage.on .osx, .empty)).2.2.finished =
                journal.finished.map (·.on .osx) := by
  constructor
  · intro L directory load m session given
    have same := run_on (Recipe.shipped_covers .linux) given
    refine ⟨same, ?_⟩
    rw [same, given]
    rfl
  · intro ω α report script stage home fine
    exact run_carries (Recipe.shipped_covers .linux) report script home fine

/-! ### An evaluation in the root directory -/

theorem pathExists_root (m : Host.Machine) : m.pathExists "/" = true := by
  have steps : Host.FileSystem.steps "/" = [] := by decide
  have short : Host.Machine.checkLength "/" = .ok () := by decide
  have led : m.lead true "/" [] = .ok ⟨[], some .directory⟩ := by
    rw [Host.Machine.lead, if_neg (by decide), if_neg (by decide), if_pos (by decide), Host.FileSystem.walk]
    rfl
  have located : m.locate true "/" = .ok ⟨[], some .directory⟩ := by
    rw [Host.Machine.locate, steps, short, ← led]
    rfl
  rw [Host.Machine.pathExists, Host.Machine.find, located]

/-- A cache folder that is there is bound without a change on the host. -/
theorem start_there
    (h : m.pathExists (Host.Machine.expandTilde m.home (o.cacheRoot directory).host) = true) :
    let cache := o.cacheRoot directory
    start o directory m =
      (.ok (), ⟨(Build.start o.platform cache).add (.syncedFolder cache.host cache.guest), m⟩) := by
  have unbound : (Step.requireUnbound (o.cacheRoot directory).guest).perform
      ⟨.start o.platform (o.cacheRoot directory), m⟩ = (.ok (), ⟨.start o.platform (o.cacheRoot directory), m⟩) :=
    rfl
  have made : (Step.ensureDirectory (o.cacheRoot directory).host).perform
      ⟨.start o.platform (o.cacheRoot directory), m⟩ = (.ok (), ⟨.start o.platform (o.cacheRoot directory), m⟩) :=
    if_pos h
  rw [start_eq, syncedFolder_bindCache, Provision.perform, unbound]
  dsimp only
  rw [Provision.perform, made]
  rfl

/-- An evaluation of an empty program, and a script with a block. -/
theorem linux_session_on_osx_block :
    let code : Config.Code := ⟨"config", 0, 2, #[.leave 0 (some 0)], #[1], #[], #[]⟩
    let m : Host.Machine := ⟨.empty, [], none⟩
    let shell : Config.Script Unit Unit := .statement ⟨"Run", some "Shell", [.string "ls"]⟩ fun _ => .done ()
    let script : Config.Script Unit Unit :=
      .blockStatement ⟨"Dir", some "In", [.string "d"]⟩ shell fun _ _ => .done ()
    let stage := Stage.start ⟨.start .linux ⟨"/host", "/guest"⟩, m⟩
    let fine : Unit → Except String Unit := .ok
    let load (_ : Host.Machine) : Except EvaluationError language.Script := .ok (programScript code)
    run language ⟨.osx, "/", "/cache"⟩ "/" load m = run language ⟨.linux, "/", "/cache"⟩ "/" load m ∧
      (script.run Recipe.shipped fine (stage.on .osx)).2 = (script.run Recipe.shipped fine stage).2.on .osx := by
  intro code m shell script stage fine load
  have given : (run language ⟨.linux, "/", "/cache"⟩ "/" load m).1 = .ok ⟨[.syncedFolder "/" "/cache"]⟩ := by
    have host : Host.Machine.expandTilde m.home (Options.cacheRoot ⟨.linux, "/", "/cache"⟩ "/").host = "/" := by
      decide +kernel
    have there := pathExists_root m
    rw [← host] at there
    rw [run_eq, start_there there]
    decide +kernel
  have succeeded : ∀ f ∈ (watched Recipe.shipped fine script (stage, .empty)).2.2.finished, f.outcome = .ok () := by
    decide +kernel
  exact ⟨((linux_session_on_osx ⟨.osx, "/", "/cache"⟩).1 language "/" load m _ given).1,
    congrArg Prod.snd ((linux_session_on_osx ⟨.osx, "/", "/cache"⟩).2 fine script stage rfl succeeded).1⟩

end Provisioning.Evaluation
