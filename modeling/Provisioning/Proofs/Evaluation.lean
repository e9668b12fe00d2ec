import Provisioning.Evaluation
import Provisioning.Proofs.Script.Custody
import Provisioning.Proofs.Script.Session

/-! What an evaluation gives, told by the statements that finished in it. The first one that failed is the
failure of the evaluation, whatever came after it; a session is given only if none failed, and holds what the
statements added. All of it holds for the scripts of any language. -/

namespace Provisioning.Evaluation

open Config.Script

variable {L : Language} {o : Options} {directory : String} {load : Host.Machine → Except EvaluationError L.Script}
  {script : L.Script} {site : Site} {m : Host.Machine}

/-- What an evaluation gives that goes on with a script. -/
def finish (L : Language) (script : L.Script) (site : Site) : Except EvaluationError Session × Host.Machine :=
  let (verdict, stage) := L.perform script (.start site)
  conclude verdict stage

/-- The statements that finished in a script, as the journal of its run has them. -/
def finishedIn (L : Language) (script : L.Script) (site : Site) : List Finished :=
  (watched Recipe.shipped L.report script (.start site, .empty)).2.2.finished

/-- The statement that binds the cache's folder when it has finished. -/
def firstFinished (o : Options) (directory : String) (m : Host.Machine) : Finished :=
  let (outcome, site) := start o directory m
  ⟨bindCache (o.cacheRoot directory), .start o.platform (o.cacheRoot directory), site.build, outcome, false⟩

/-- The statements that finished in an evaluation, the first one and those of the script. -/
def finished (L : Language) (o : Options) (directory : String)
    (load : Host.Machine → Except EvaluationError L.Script) (m : Host.Machine) : List Finished :=
  firstFinished o directory m ::
    match start o directory m with
    | (.error _, _) => []
    | (.ok (), site) =>
      match load site.machine with
      | .error _ => []
      | .ok script => finishedIn L script site

/-! ### The first statement -/

theorem course_bindCache (cache : Cache.Root) (platform : Platform) :
    Recipe.shipped.course (bindCache cache) platform false =
      .steps (Recipe.syncedFolder (bindCache cache).arguments) := by
  cases platform <;> rfl

theorem syncedFolder_bindCache (cache : Cache.Root) :
    Recipe.syncedFolder (bindCache cache).arguments =
      .step (.requireUnbound cache.guest) (.step (.ensureDirectory cache.host)
        (.step (.add (.syncedFolder cache.host cache.guest)) (.done ()))) := rfl

theorem start_eq (o : Options) (directory : String) (m : Host.Machine) :
    start o directory m = (Recipe.syncedFolder (bindCache (o.cacheRoot directory)).arguments).perform
      ⟨.start o.platform (o.cacheRoot directory), m⟩ := by
  have dispatched := Registry.dispatch_runOn Recipe.shipped (bindCache (o.cacheRoot directory)) none
    ⟨.start o.platform (o.cacheRoot directory), m⟩ ()
  rw [Option.isSome_none, course_bindCache, Course.follow, Nested.runOn_ofProvision] at dispatched
  simp only [start, dispatched]

theorem ensureDirectory_build (path : String) (s : Site) :
    ((Step.ensureDirectory path).perform s).2.build = s.build := by
  simp only [Step.perform]
  split <;> rfl

theorem start_session (h : (start o directory m).1 = .ok ()) :
    (start o directory m).2.build.session.directives =
      [.syncedFolder (o.cacheRoot directory).host (o.cacheRoot directory).guest] := by
  have unbound : (Step.requireUnbound (o.cacheRoot directory).guest).perform
      ⟨.start o.platform (o.cacheRoot directory), m⟩ = (.ok (), ⟨.start o.platform (o.cacheRoot directory), m⟩) :=
    rfl
  have build := ensureDirectory_build (o.cacheRoot directory).host ⟨.start o.platform (o.cacheRoot directory), m⟩
  rw [start_eq, syncedFolder_bindCache] at h ⊢
  simp only [Provision.perform, unbound] at h ⊢
  generalize (Step.ensureDirectory (o.cacheRoot directory).host).perform
    ⟨.start o.platform (o.cacheRoot directory), m⟩ = made at h build ⊢
  obtain ⟨_ | _, s⟩ := made
  · cases h
  · obtain ⟨b, m'⟩ := s
    obtain rfl : b = .start o.platform (o.cacheRoot directory) := build
    rfl

/-! ### The script -/

theorem finishedIn_direct (L : Language) (script : L.Script) (site : Site) :
    finishedIn L script site = (direct Recipe.shipped L.report script (site, [])).2.2 :=
  (watched_atHome Recipe.shipped L.report script (.start site)).kept.finished

theorem run_failure (L : Language) (script : L.Script) (site : Site) :
    (script.run Recipe.shipped L.report (.start site)).2.failure = firstFailure (finishedIn L script site) := by
  have direct := run_direct Recipe.shipped L.report script (.start site)
  rw [direct.2.2, finishedIn_direct]
  exact Option.none_or

theorem run_session (L : Language) (script : L.Script) (site : Site) :
    (script.run Recipe.shipped L.report (.start site)).2.site.build.session.directives =
      site.build.session.directives ++ (finishedIn L script site).flatMap Finished.added := by
  have direct := run_direct Recipe.shipped L.report script (.start site)
  rw [direct.2.1, finishedIn_direct]
  exact direct_balances Recipe.shipped L.report script (site, []) (List.append_nil _).symm

/-- Statements given as data come to the same on the site alone. -/
theorem performStatements_direct (statements : List Config.Statement) (site : Site) :
    let script := (Config.Routine.performEach Recipe.shipped statements).script .initial
    let (result, (site', finished)) := direct Recipe.shipped Config.Ending.report script (site, [])
    let (outcomes, stage) := performStatements statements site
    outcomes = result.1.toOption.getD [] ∧ stage.site = site' ∧ stage.failure = firstFailure finished := by
  intro script
  obtain ⟨result, site', failure⟩ := run_direct Recipe.shipped Config.Ending.report script (.start site)
  exact ⟨congrArg (fun e => e.1.toOption.getD []) result, site', failure.trans Option.none_or⟩

/-- Whatever the script makes of it, the first failure is the result. -/
theorem finish_failed {e : Failure} (h : firstFailure (finishedIn L script site) = some e) :
    (finish L script site).1 = .error (.provision e) := by
  rw [← run_failure] at h
  simp only [finish, Language.perform, conclude, h]

/-- What has to hold for a session. -/
theorem finish_ok {session : Session} (h : (finish L script site).1 = .ok session) :
    firstFailure (finishedIn L script site) = none ∧
      L.verdict (script.run Recipe.shipped L.report (.start site)).1 = .ok () ∧
      session.directives = site.build.session.directives ++ (finishedIn L script site).flatMap Finished.added := by
  rw [← run_failure, ← run_session]
  unfold finish Language.perform conclude at h
  generalize script.run Recipe.shipped L.report (.start site) = e at h ⊢
  obtain ⟨ending, stage⟩ := e
  dsimp only at h ⊢
  cases failure : stage.failure with
  | some e =>
    rw [failure] at h
    cases h
  | none =>
    rw [failure] at h
    cases verdict : L.verdict ending with
    | error e =>
      rw [verdict] at h
      cases h
    | ok _ =>
      rw [verdict] at h
      obtain rfl := Except.ok.inj h
      exact ⟨rfl, rfl, rfl⟩

/-! ### The whole evaluation -/

theorem run_eq (L : Language) (o : Options) (directory : String)
    (load : Host.Machine → Except EvaluationError L.Script) (m : Host.Machine) :
    run L o directory load m =
      match start o directory m with
      | (.error e, site) => (.error (.provision e), site.machine)
      | (.ok (), site) =>
        match load site.machine with
        | .error e => (.error e, site.machine)
        | .ok script => finish L script site := by
  unfold run runWith
  rcases start o directory m with ⟨_ | _, site⟩
  · rfl
  · have machine : (Stage.start site).machine = site.machine := rfl
    dsimp only
    rw [machine]
    cases load site.machine <;> rfl

/-- The script of a file of the host. -/
def fileScript (file : String) (m : Host.Machine) : Except EvaluationError language.Script :=
  match configText file m with
  | .error e => .error e
  | .ok text => textScript (sourceName file) text

theorem evaluateFile_eq {path file : String} (canonical : m.canonicalPath path = .ok file) :
    evaluateFile o path m = run language o ((Host.Path.parent? file).getD ".") (fileScript file) m := by
  rw [evaluateFile, evaluateFileWith, canonical, run]
  refine congrArg (runWith (n := Id) o _ · m) (funext fun stage => ?_)
  rw [fileScript]
  cases configText file stage.machine <;> rfl

theorem run_cases (L : Language) (o : Options) (directory : String)
    (load : Host.Machine → Except EvaluationError L.Script) (m : Host.Machine) :
    (∃ e, (start o directory m).1 = .error e ∧ finished L o directory load m = [firstFinished o directory m] ∧
        (run L o directory load m).1 = .error (.provision e)) ∨
      (start o directory m).1 = .ok () ∧ ((∃ e, load (start o directory m).2.machine = .error e ∧
          finished L o directory load m = [firstFinished o directory m] ∧
          (run L o directory load m).1 = .error e) ∨
        ∃ script, load (start o directory m).2.machine = .ok script ∧
          finished L o directory load m = firstFinished o directory m ::
            finishedIn L script (start o directory m).2 ∧
          (run L o directory load m).1 = (finish L script (start o directory m).2).1) := by
  rw [run_eq]
  unfold finished
  rcases start o directory m with ⟨e | _, site⟩
  · exact .inl ⟨e, rfl, rfl, rfl⟩
  · dsimp only
    cases load site.machine with
    | error e => exact .inr ⟨rfl, .inl ⟨e, rfl, rfl, rfl⟩⟩
    | ok script => exact .inr ⟨rfl, .inr ⟨script, rfl, rfl, rfl⟩⟩

/-- The first failure of the statements is the result. -/
theorem run_failed {e : Failure} (h : firstFailure (finished L o directory load m) = some e) :
    (run L o directory load m).1 = .error (.provision e) := by
  have first : (firstFinished o directory m).outcome = (start o directory m).1 := rfl
  obtain ⟨cause, failed, eq, result⟩ | ⟨started, ⟨_, -, eq, -⟩ | ⟨script, -, eq, result⟩⟩ :=
    run_cases L o directory load m <;>
    rw [eq, firstFailure_cons] at h
  · rw [Finished.failure?_eq_some.mpr (first.trans failed), Option.some_or] at h
    rw [result, Option.some.inj h]
  · rw [Finished.failure?_eq_none.mpr (first.trans started)] at h
    cases h
  · rw [Finished.failure?_eq_none.mpr (first.trans started), Option.none_or] at h
    rw [result, finish_failed h]

/-- A session is given by a script that came to its end, and holds what the statements added. -/
theorem run_ok {session : Session} (h : (run L o directory load m).1 = .ok session) :
    (∃ script, load (start o directory m).2.machine = .ok script ∧
      L.verdict (script.run Recipe.shipped L.report (.start (start o directory m).2)).1 = .ok ()) ∧
      session.directives = .syncedFolder (o.cacheRoot directory).host (o.cacheRoot directory).guest ::
        (finished L o directory load m).tail.flatMap Finished.added := by
  obtain ⟨_, -, -, result⟩ | ⟨started, ⟨_, -, -, result⟩ | ⟨script, loaded, eq, result⟩⟩ :=
    run_cases L o directory load m <;>
    rw [result] at h
  · cases h
  · cases h
  · obtain ⟨-, verdict, added⟩ := finish_ok h
    refine ⟨⟨script, loaded, verdict⟩, ?_⟩
    rw [added, eq, start_session started, List.singleton_append, List.tail_cons]

/-- The first statement that failed decides, and a session is what the statements added, whatever the language and the
script are. -/
theorem first_failure_decides (L : Language) (o : Options) (directory : String)
    (load : Host.Machine → Except EvaluationError L.Script) (m : Host.Machine) :
    let statements := finished L o directory load m
    let (result, _) := run L o directory load m
    ((∀ f ∈ statements, f.outcome = .ok ()) ∨
      ∃ past f rest e, statements = past ++ f :: rest ∧ (∀ g ∈ past, g.outcome = .ok ()) ∧
        f.outcome = .error e ∧ result = .error (.provision e)) ∧
      ∀ session, result = .ok session →
        (∀ f ∈ statements, f.outcome = .ok ()) ∧
        (∃ script, load (start o directory m).2.machine = .ok script ∧
          L.verdict (script.run Recipe.shipped L.report (.start (start o directory m).2)).1 = .ok ()) ∧
        session.directives =
          .syncedFolder (o.cacheRoot directory).host (o.cacheRoot directory).guest ::
            statements.tail.flatMap Finished.added := by
  intro statements
  cases h : firstFailure statements with
  | none =>
    have fine := firstFailure_eq_none.mp h
    exact ⟨.inl fine, fun session given => ⟨fine, run_ok given⟩⟩
  | some e =>
    have result := run_failed h
    obtain ⟨past, f, rest, eq, fine, failed⟩ := firstFailure_eq_some.mp h
    refine ⟨.inr ⟨past, f, rest, e, eq, fine, failed, result⟩, fun session given => ?_⟩
    cases result.symm.trans given

end Provisioning.Evaluation
