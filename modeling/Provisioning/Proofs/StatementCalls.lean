import Provisioning.Proofs.Config.Conversion
import Provisioning.Proofs.Script.Reaches
import Provisioning.Proofs.StatementForms
import Provisioning.Proofs.TwoPlatforms.Evaluation

/-! What a call comes to that is to make a statement. Its values are read first. If they are no statement, the call
raises an error and leaves nothing else, so that an error that the program catches is forgotten. If they are one, the
statement is made, and an evaluation in which it failed gives no session. -/

namespace Provisioning

open Config.Script

namespace Config

/-! ### Requests -/

/-- The statement with the values as its arguments and its block, whatever was looked at. -/
def Memory.command (m : Memory) (subject : String) (action : Option String) (values : List Value) :
    Except Fault (Command × Option Address) := do
  let (arguments, block) ← ((m.arguments values).run.run []).1
  return (⟨subject, action, arguments⟩, block)

/-- The functions that make statements. -/
inductive CallForm where
  | subject (name : String)
  | action (subject name : String)
  | changeDirectory

namespace CallForm

def callable : CallForm → Callable
  | .subject name => .subject name
  | .action s name => .action s name
  | .changeDirectory => .builtin .changeDirectory

/-- The statement that the values of a call ask for and the function that is its block, or what is wrong with the
values. -/
def request (m : Memory) : CallForm → List Value → Except Fault (Command × Option Address)
  | .subject name, values => do m.command name (← Routine.actionName name values) values.tail
  | .action s name, values => m.command s (some name) values
  | .changeDirectory, values => do
    let directory ← Routine.directoryText (values.headD .nil)
    match values.tail.headD .nil with
    | .function a => return (⟨"Dir", some "In", [.string directory]⟩, some a)
    | v => throw (.bodyNotFunction v.typeName)

/-- Of a memory, a request knows the tables only. -/
theorem request_tables {m m' : Memory} (h : m'.tables = m.tables) (form : CallForm) (values : List Value) :
    form.request m' values = form.request m values := by
  have same : m'.command = m.command := by
    funext subject action values
    rw [Memory.command, Memory.arguments_tables h, Memory.command]
  cases form <;> simp only [request, same]

end CallForm

/-! ### Faults -/

theorem Memory.complaint_newFault (m : Memory) (f : Fault) :
    (m.newFault f).2.complaint (.fault m.faults.size) = .fault f := by
  simp only [complaint, newFault, Array.getElem?_push_size]

/-- The memory when a piece is over that started with the memory `before` from a place of the stack. -/
def Memory.left (m : Memory) (place : Nat) (before : Memory) : Memory :=
  { m.closeFrom place with activations := before.activations, top := before.top }

theorem Memory.closeFrom_faults (m : Memory) (place : Nat) : (m.closeFrom place).faults = m.faults := by
  unfold closeFrom
  split
  · rfl
  · split <;> rfl

theorem Memory.left_complaint (m : Memory) (place : Nat) (before : Memory) :
    (m.left place before).complaint = m.complaint := by
  funext v
  cases v <;> simp only [complaint, left, closeFrom_faults]

namespace Routine

variable {α β : Type} {r : Registry Recipe} {x : Script Ending β} {a b : Account}

/-- The value that was raised is the fault. -/
def Raises (e : Except Value α × Memory) (f : Fault) : Prop := ∃ v, e.1 = .error v ∧ e.2.complaint v = .fault f

/-- The end of a call that made a statement is what the statement's outcome makes of it. -/
def Tells (e : Except Value (List Value) × Memory) : Except Failure Unit → Prop
  | .ok () => e.1 = .ok []
  | .error cause => Raises e (.statement cause.message)

theorem Tells.left {e : Except Value (List Value) × Memory} {outcome : Except Failure Unit} (h : Tells e outcome)
    (place : Nat) (before : Memory) : Tells (e.1, e.2.left place before) outcome := by
  cases outcome with
  | ok => exact h
  | error cause =>
    obtain ⟨v, raised, known⟩ := h
    refine ⟨v, raised, ?_⟩
    rw [Memory.left_complaint, known]

/-! ### Answers -/

/-- Makes a statement with a function as its block, as all forms do in the end. -/
def conclude (call : Caller) (c : Command) (block : Option Address) : Routine (List Value) := do
  state c (block.map fun a => do
    let _ ← call true (.function a) []
    pure ())
  return []

/-- What is done about a request. -/
def answer (call : Caller) : Except Fault (Command × Option Address) → Routine (List Value)
  | .error e => fault e
  | .ok (c, block) => conclude call c block

theorem statement_script (call : Caller) (subject : String) (action : Option String) (values : List Value)
    (m : Memory) : ∃ m', (statement call subject action values).script m =
      (answer call (m.command subject action values)).script m' := by
  -- The looks at tables stay, whatever comes of the reading.
  let m' := ((m.arguments values).run.run []).2.reverse.foldl Memory.looked m
  have start : (statement call subject action values).script m =
      (ofExcept ((m.arguments values).run.run []).1 >>= fun (arguments, block) =>
        conclude call ⟨subject, action, arguments⟩ block).script m' := rfl
  refine ⟨m', ?_⟩
  rw [start, Memory.command]
  cases ((m.arguments values).run.run []).1 <;> rfl

theorem outside_script (s : Surroundings) (form : CallForm) (values : List Value) (m : Memory) :
    ∃ m', (s.outside form.callable values).script m = (answer s.call (form.request m values)).script m' := by
  cases form with
  | action subject name => exact statement_script s.call subject (some name) values m
  | subject name =>
    show ∃ m', (subjectStatement s.call name values).script m = _
    rw [subjectStatement, CallForm.request]
    cases actionName name values with
    | error e => exact ⟨m, rfl⟩
    | ok action => exact statement_script s.call name action values.tail m
  | changeDirectory =>
    refine ⟨m, ?_⟩
    show (changeDirectory s.call values).script m = _
    rw [changeDirectory, CallForm.request]
    cases directoryText (values.headD .nil) with
    | error e => rfl
    | ok directory => cases values.tail.headD .nil <;> rfl

/-- A call answers what its values ask for in the memory that it starts with. -/
theorem invoke_script (s : Surroundings) (form : CallForm) (place : Nat) (values : List Value) (m : Memory) :
    ∃ m', (s.invoke form.callable place values).script m =
      ((answer s.call (form.request m values)).script m').bind fun (e, after) =>
        .done (e, after.left (place + 2) m) := by
  have same := CallForm.request_tables (show ({ m with top := place + 2 }.activate .builtin).tables = m.tables from rfl)
    form values
  obtain ⟨m', read⟩ := outside_script s form values ({ m with top := place + 2 }.activate .builtin)
  rw [same] at read
  have start : (s.invoke form.callable place values).script m =
      ((s.outside form.callable values).script ({ m with top := place + 2 }.activate .builtin)).bind fun (e, after) =>
        .done (e, after.left (place + 2) m) := rfl
  exact ⟨m', by rw [start, read]⟩

/-- What follows on the outcome of a statement. -/
def settle (outcome : Except String Unit) : Routine (List Value) := do
  let settled : Routine Unit :=
    match outcome with
    | .ok () => pure ()
    | .error message => fault (.statement message)
  settled
  return []

theorem direct_settle (r : Registry Recipe) (outcome : Except Failure Unit) (m : Memory) (a : Account) :
    ∃ e, direct r Ending.report ((settle (outcome.mapError Failure.message)).script m) a = (e, a) ∧
      Tells e outcome := by
  cases outcome with
  | ok => exact ⟨_, rfl, rfl⟩
  | error cause =>
    exact ⟨_, rfl, .fault m.faults.size, rfl, Memory.complaint_newFault m (.statement cause.message)⟩

theorem conclude_direct (r : Registry Recipe) (call : Caller) (c : Command) (block : Option Address) (m : Memory)
    (a : Account) : ∃ (script : Option (Script Ending Ending)) (m' : Memory),
      let e := directStatement r c ((script.map (direct r Ending.report)).map (directBlock Ending.report)) a
      direct r Ending.report ((conclude call c block).script m) a =
        direct r Ending.report ((settle (e.1.1.mapError Failure.message)).script m') e.2 := by
  cases block with
  | none => exact ⟨none, m, rfl⟩
  | some block => exact ⟨some _, _, rfl⟩

/-- The statement that is made is the last one to finish, after those of its block. -/
theorem conclude_finishes (r : Registry Recipe) (call : Caller) (c : Command) (block : Option Address) (m : Memory)
    (a : Account) :
    let e := direct r Ending.report ((conclude call c block).script m) a
    ∃ inner f, e.2.2 = a.2 ++ inner ++ [f] ∧ f.command = c ∧ f.before = a.1.build ∧ Tells e.1 f.outcome := by
  obtain ⟨script, m', played⟩ := conclude_direct r call c block m a
  have keeps : ∀ play ∈ script.map (direct r Ending.report), Keeps (Finishes a.2) play := by
    intro play h
    obtain ⟨script, -, rfl⟩ := Option.mem_map.mp h
    exact direct_finishes a.2 script
  obtain ⟨inner, f, eq, command, before, outcome⟩ := directStatement_finishes Ending.report keeps r c List.prefix_rfl
  obtain ⟨e, settled, tells⟩ := direct_settle r f.outcome m' (directStatement r c _ a).2
  dsimp only at played eq outcome ⊢
  rw [played, ← outcome, settled]
  exact ⟨inner, f, eq, command, before, tells⟩

/-! ### Calls -/

section

variable {s : Surroundings} {form : CallForm} {values : List Value} {m : Memory}

/-- A call whose values are no statement raises what is wrong with them, and makes no statement. -/
theorem invoke_refused {f : Fault} (h : form.request m values = .error f) (place : Nat) :
    ∃ e, (s.invoke form.callable place values).script m = .done e ∧ Raises e f := by
  obtain ⟨m', script⟩ := invoke_script s form place values m
  rw [h] at script
  refine ⟨_, script, .fault m'.faults.size, rfl, ?_⟩
  rw [Memory.left_complaint]
  exact Memory.complaint_newFault m' f

/-- A call whose values are a statement makes it. -/
theorem invoke_makes (r : Registry Recipe) {c : Command} {block : Option Address}
    (h : form.request m values = .ok (c, block)) (place : Nat) (a : Account) :
    let e := direct r Ending.report ((s.invoke form.callable place values).script m) a
    ∃ inner f, e.2.2 = a.2 ++ inner ++ [f] ∧ f.command = c ∧ f.before = a.1.build ∧ Tells e.1 f.outcome := by
  obtain ⟨m', script⟩ := invoke_script s form place values m
  obtain ⟨inner, f, eq, command, before, tells⟩ := conclude_finishes r s.call c block m' a
  rw [h] at script
  rw [script, direct_bind]
  exact ⟨inner, f, eq, command, before, tells.left (place + 2) m⟩

end

/-! ### What a program asks for first -/

/-- The directory that the machine asks to open for a function. -/
def directory? : Event → Option Bytes
  | .invoke (.builtin .changeDirectory) _ [.string d, .function _] _ => some d
  | _ => none

theorem of_directory? {e : Event} {d : Bytes} (h : directory? e = some d) : ∃ place block wanted,
    e = .invoke (.builtin .changeDirectory) place [.string d, .function block] wanted := by
  unfold directory? at h
  split at h
  · exact ⟨_, _, _, by rw [Option.some.inj h]⟩
  · cases h

theorem ofScript_script (f : Memory → Script Ending (Except Value α × Memory)) (m : Memory) :
    (ofScript f).script m = f m := rfl

theorem ofStep_script {f : Memory → α × Memory} {m m' : Memory} {v : α} (h : f m = (v, m')) :
    (ofStep f).script m = .done (.ok v, m') :=
  congrArg (fun e : α × Memory => Script.done (Except.ok e.1, e.2)) h

theorem andThen_reaches {y : Routine α} {m : Memory} (h : Reaches r Ending.report x b (y.script m) a) {γ : Type}
    (f : α → Routine γ) : Reaches r Ending.report x b ((y >>= f).script m) a := h.bind _

theorem enclosed_reaches {y : Routine α} {m : Memory} {place : Nat}
    (h : Reaches r Ending.report x b (y.script { m with top := place }) a) :
    Reaches r Ending.report x b ((enclosed place y).script m) a := h.bind _

theorem repeatUntil_reaches {σ : Type} {s : σ} {turn : σ → Routine (σ ⊕ α)} {m : Memory}
    (h : Reaches r Ending.report x b ((turn s).script m) a) :
    Reaches r Ending.report x b ((repeatUntil s turn).script m) a := by
  -- The number of turns is a literal that nothing should count down.
  obtain ⟨n, turns⟩ : ∃ n, maxTurns = n + 1 := ⟨999999999, rfl⟩
  rw [repeatUntil, turns, ofScript_script, repeatFrom_succ]
  exact (h.bind _).bind _

/-- The machine's run comes to the call that the machine asks for. -/
theorem run_reaches {s : Surroundings} {m m' : Memory} {f : Callable} {place : Nat} {values : List Value}
    {wanted : Option Nat} (asked : Machine.resume (s.left == 0) m = (.invoke f place values wanted, m'))
    (h : Reaches r Ending.report x b ((s.invoke f place values).script m') a) :
    Reaches r Ending.report x b (s.run.script m) a := by
  rw [Surroundings.run]
  apply repeatUntil_reaches
  rw [script_bind (ofStep_script asked)]
  exact andThen_reaches h _

/-- A function with code that is called from outside is run by the machine. -/
theorem enter_reaches {s : Surroundings} {m m' : Memory} {f : Value} {values : List Value} {watched : Bool}
    (inside : s.left ≠ 0) (call : s = ⟨s.registry, s.left, watched, enter s.registry s.left⟩)
    (opened : Machine.start f values m = (.ok none, m')) (h : Reaches r Ending.report x b (s.run.script m') a) :
    Reaches r Ending.report x b ((enter s.registry (s.left + 1) watched f values).script m) a := by
  have got : (get : Routine Memory).script m = .done (.ok m, m) := rfl
  have brink : (watched && s.left == 0) = false := by simp [inside]
  rw [enter, ← call, script_bind got]
  apply enclosed_reaches
  rw [brink, onBrink, if_neg Bool.false_ne_true, script_bind (ofStep_script opened)]
  exact h

end Routine

end Config

namespace Evaluation

open Config Config.Routine

variable {o : Options} {directory : String} {load : Host.Machine → Except EvaluationError language.Script}
  {m : Host.Machine} {α : Type} {x : Config.Script Ending α} {a : Account}

/-- The surroundings of a program's own calls. -/
def outermost : Surroundings := ⟨Recipe.shipped, maxLevels - 1, true, enter Recipe.shipped (maxLevels - 1)⟩

/-- The first call that the code of a program asks for. -/
theorem program_reaches {code : Config.Code} {f : Callable} {place : Nat} {values : List Value} {wanted : Option Nat}
    {memory memory' : Memory}
    (opened : Machine.start (.function Memory.initial.functions.size) []
      (Memory.initial.withFunction (.closure code #[0])) = (.ok none, memory))
    (asked : Machine.resume false memory = (.invoke f place values wanted, memory')) :
    Reaches Recipe.shipped Ending.report ((outermost.invoke f place values).script memory') a
      (programScript code) a := by
  have made : (newFunction (.closure code #[0])).script .initial =
      .done (.ok (.function Memory.initial.functions.size), Memory.initial.withFunction (.closure code #[0])) := rfl
  have ran := run_reaches (s := outermost) asked (Reaches.refl (r := Recipe.shipped) _ a)
  have called := enter_reaches (s := outermost) (by decide) rfl opened ran
  rw [programScript, ending, runProgram, script_bind made]
  exact (andThen_reaches called fun _ => pure ()).bind _

/-! ### Evaluations -/

/-- The run of an evaluation's script comes to a piece of a script. -/
structure Comes (o : Options) (directory : String) (load : Host.Machine → Except EvaluationError language.Script)
    (m : Host.Machine) (x : Config.Script Ending α) (a : Account) : Prop where
  started : (start o directory m).1 = .ok ()
  reaches : ∃ script : language.Script, load (start o directory m).2.machine = .ok script ∧
    Reaches Recipe.shipped Ending.report x a script ((start o directory m).2, [])

/-- An evaluation comes to the first call that the code of its program asks for. -/
theorem Comes.first {code : Config.Code} {f : Callable} {place : Nat} {values : List Value} {wanted : Option Nat}
    {memory memory' : Memory} (started : (start o directory m).1 = .ok ())
    (loaded : load (start o directory m).2.machine = .ok (programScript code))
    (opened : Machine.start (.function Memory.initial.functions.size) []
      (Memory.initial.withFunction (.closure code #[0])) = (.ok none, memory))
    (asked : Machine.resume false memory = (.invoke f place values wanted, memory')) :
    Comes o directory load m ((outermost.invoke f place values).script memory') ((start o directory m).2, []) :=
  ⟨started, programScript code, loaded, program_reaches opened asked⟩

theorem Comes.finished (h : Comes o directory load m x a) :
    firstFinished o directory m :: (direct Recipe.shipped Ending.report x a).2.2 <+:
      finished language o directory load m := by
  obtain ⟨started, script, loaded, reaches⟩ := h
  unfold Evaluation.finished
  generalize start o directory m = e at started loaded reaches ⊢
  obtain ⟨r, site⟩ := e
  obtain rfl : r = .ok () := started
  dsimp only at loaded reaches ⊢
  rw [loaded]
  dsimp only
  rw [finishedIn_direct, List.prefix_cons_inj]
  exact reaches.finished

/-- A statement that failed costs the session. -/
theorem run_of_failed {f : Finished} (h : f ∈ finished language o directory load m) {cause : Failure}
    (failed : f.outcome = .error cause) : ∃ first, (run language o directory load m).1 = .error (.provision first) := by
  cases known : firstFailure (finished language o directory load m) with
  | none => cases failed.symm.trans (firstFailure_eq_none.mp known f h)
  | some first => exact ⟨first, run_failed known⟩

/-- The main statement, about every call to which an evaluation of a script comes. If the values are a statement, it finishes
after the statements before it and those of its block, it tells the program what it came to, and if it failed, there
is no session, whatever the program makes of that. If they are none, the call only raises what is wrong with them: it
changes nothing on the site, and no statement finishes. -/
theorem calls_decide {s : Surroundings} {form : CallForm} {place : Nat} {values : List Value} {memory : Memory}
    (come : Comes o directory load m ((s.invoke form.callable place values).script memory) a) :
    match form.request memory values with
    | .error f => ∃ e, (s.invoke form.callable place values).script memory = .done e ∧ Raises e f
    | .ok (c, _) => ∃ inner f,
        firstFinished o directory m :: (a.2 ++ inner ++ [f]) <+: finished language o directory load m ∧
        f.command = c ∧ f.before = a.1.build ∧
        Tells (direct Recipe.shipped Ending.report ((s.invoke form.callable place values).script memory) a).1
          f.outcome ∧
        ∀ cause, f.outcome = .error cause → ∃ first, (run language o directory load m).1 = .error (.provision first) := by
  cases read : form.request memory values with
  | error f => exact invoke_refused read place
  | ok request =>
    obtain ⟨c, block⟩ := request
    obtain ⟨inner, f, eq, command, before, tells⟩ := invoke_makes Recipe.shipped read place a
    have finished := come.finished
    rw [eq] at finished
    have mem : f ∈ Evaluation.finished language o directory load m := finished.subset (by simp)
    exact ⟨inner, f, finished, command, before, tells, fun cause => run_of_failed mem⟩

/-- The root directory is there, so that the cache's folder may be bound to it. -/
theorem start_root (platform : Platform) :
    let m : Host.Machine := ⟨.empty, [], none⟩
    start ⟨platform, "/", "/cache"⟩ "/" m =
      (.ok (), ⟨(Build.start platform ⟨"/", "/cache"⟩).add (.syncedFolder "/" "/cache"), m⟩) := by
  intro m
  have root : Options.cacheRoot ⟨platform, "/", "/cache"⟩ "/" = ⟨"/", "/cache"⟩ := by cases platform <;> decide +kernel
  have host : Host.Machine.expandTilde m.home "/" = "/" := by decide +kernel
  have there : m.pathExists (Host.Machine.expandTilde m.home (Options.cacheRoot ⟨platform, "/", "/cache"⟩ "/").host) =
      true := by rw [root, host, pathExists_root]
  have started := start_there there
  rwa [root] at started

/-- A call of `cd` with a directory and a function. -/
theorem calls_decide_cd :
    let code : Config.Code := ⟨"config", 0, 3, #[.get 0 (.captured 0) (.constant (.text "cd")) "",
      .load 1 (.constant (.text "d")), .get 2 (.captured 0) (.constant (.text "error")) "",
      .call 0 (some 2) (some 0) "", .leave 0 (some 0)], #[1, 1, 1, 1, 1], #[], #[]⟩
    let o : Options := ⟨.osx, "/", "/cache"⟩
    let m : Host.Machine := ⟨.empty, [], none⟩
    let load (_ : Host.Machine) : Except EvaluationError language.Script := .ok (programScript code)
    ∃ inner f, firstFinished o "/" m :: (inner ++ [f]) <+: finished language o "/" load m ∧
      f.command = ⟨"Dir", some "In", [.string "d"]⟩ := by
  intro code o m load
  let opened := Machine.start (.function Memory.initial.functions.size) []
    (Memory.initial.withFunction (.closure code #[0]))
  let event := Machine.resume false opened.2
  have directory : directory? event.1 = some (Text.utf8 "d") := by decide +kernel
  obtain ⟨place, block, wanted, asked⟩ := of_directory? directory
  have started : (start o "/" m).1 = .ok () := by rw [start_root]
  have framed : opened.1 = .ok none := rfl
  have frame : opened = (.ok none, opened.2) := Prod.mk.eta.symm.trans (congrArg (·, opened.2) framed)
  have resumed : event = (.invoke (.builtin .changeDirectory) place [.text "d", .function block] wanted, event.2) :=
    Prod.mk.eta.symm.trans (congrArg (·, event.2) asked)
  have come : Comes o "/" load m ((outermost.invoke CallForm.changeDirectory.callable place
      [.text "d", .function block]).script event.2) ((start o "/" m).2, []) :=
    Comes.first started rfl frame resumed
  obtain ⟨inner, f, finished, command, -⟩ := calls_decide come
  exact ⟨inner, f, finished, command⟩

/-- A call whose values are no statement leaves a session if its error is caught. -/
theorem caught_call_forgotten :
    let o : Options := ⟨.osx, "/", "/cache"⟩
    let m : Host.Machine := ⟨.empty, [], none⟩
    (evaluateText o "/" "assert(not pcall(Run, \"Shell\", nil, \"make\"))" m).1 =
        .ok ⟨[.syncedFolder "/" "/cache"]⟩ ∧
      (evaluateText o "/" "Run(\"Shell\", nil, \"make\")" m).1 = .error (.complaint (.fault .nilInside)) := by
  intro o m
  rw [evaluateText, evaluateText, runWith, runWith, start_root]
  constructor <;> decide +kernel

end Evaluation

end Provisioning
