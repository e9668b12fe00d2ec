import Provisioning.Build.Operation
import Provisioning.Proofs.Build.Calls
import Provisioning.Proofs.Dispatch

/-! The calls of a run of operations, as its trace tells them. An operation makes its calls from the site that
its record names, a block makes none of its own, and so the whole run is a sequence of moves. -/

namespace Provisioning

variable {α β : Type}

/-- The calls of a statement's own steps; a block is not among them. -/
def Course.calls : Course → Site → List Call
  | .steps p, s => p.calls s
  | .refused _, _ => []
  | .inside _, _ => []

def Registry.calls (r : Registry Recipe) (c : Command) (blocked : Bool) (s : Site) : List Call :=
  (r.course c s.build.platform blocked).calls s

/-- The calls of an operation without those of its block. -/
def Operation.calls (s : Site) : Operation → List Call
  | .dispatch c => Recipe.shipped.calls c false s
  | .dispatchBlock c _ => Recipe.shipped.calls c true s
  | op => op.steps.calls s

def Record.calls (r : Record) : List Call := r.operation.calls r.before

def Trace.calls (t : Trace) : List Call := t.flatMap Record.calls

/-- The trace of operations that are run one after another. -/
def Operation.trace (ops : List Operation) (s : Site) : Trace :=
  (Operation.performEach ops s).1.flatMap (·.1)

/-- The calls of operations that are run one after another, in their order. -/
def Operation.allCalls (ops : List Operation) (s : Site) : List Call := Trace.calls (trace ops s)

theorem Trace.calls_append (t t' : Trace) : Trace.calls (t ++ t') = Trace.calls t ++ Trace.calls t' :=
  List.flatMap_append

theorem Trace.calls_concat (t : Trace) (r : Record) : Trace.calls (t ++ [r]) = Trace.calls t ++ r.calls := by
  rw [calls_append, calls, calls, List.flatMap_singleton]

/-- A record tells what its operation comes to at the site before it. -/
def Record.Genuine (r : Record) : Prop :=
  ∃ t t', (Operation.effect r.depth r.operation).runOn (r.before, t) = (r.outcome, (r.after, t'))

/-- What an action does is moves, with the calls in the trace and at last `own`. What it adds to the trace is
genuine. -/
structure Traced.Makes (a : Traced α) (own : Site → List Call) : Prop where
  moves : ∀ s t, Moves (s, Trace.calls t)
    ((a.runOn (s, t)).2.1, Trace.calls (a.runOn (s, t)).2.2 ++ own s)
  genuine : ∀ s t, ∀ r ∈ (a.runOn (s, t)).2.2, r ∈ t ∨ r.Genuine

namespace Traced.Makes

theorem quiet {a : Traced α} (h : ∀ s t, (a.runOn (s, t)).2 = (s, t)) : Makes a fun _ => [] := by
  constructor <;> intro s t <;> rw [h]
  · rw [List.append_nil]
  · exact fun r => .inl

theorem ofProvision (p : Provision α) : Makes (.ofProvision p) p.calls :=
  ⟨fun s t => p.perform_moves s (Trace.calls t), fun _ _ _ => .inl⟩

theorem inDirectory {block : Traced Unit} (h : Makes block fun _ => []) (directory : String) :
    Makes (block.inDirectory directory) fun _ => [] := by
  refine ⟨fun s t => ?_, fun s t => h.genuine (s.enter directory) t⟩
  have entered : Moves (s, Trace.calls t) (s.enter directory, Trace.calls t) := .single (.directories s _ _)
  exact (entered.trans (h.moves _ t)).tail (by simpa using .directories _ _ _)

theorem follow {block : Option (Traced Unit)} (h : ∀ b ∈ block, Makes b fun _ => []) (course : Course) :
    Makes (course.follow block) course.calls := by
  cases course with
  | refused e => exact .quiet fun _ _ => rfl
  | steps p => exact .ofProvision p
  | inside directory =>
    cases block with
    | none => exact .quiet fun _ _ => rfl
    | some b => exact .inDirectory (h b rfl) directory

theorem dispatch (r : Registry Recipe) (c : Command) {block : Option (Traced Unit)}
    (h : ∀ b ∈ block, Makes b fun _ => []) : Makes (r.dispatch c block) (r.calls c block.isSome) := by
  constructor <;> intro s t <;> rw [Registry.dispatch_runOn]
  · exact (follow h _).moves s t
  · exact (follow h _).genuine s t

theorem andReturn {a : Traced α} {own : Site → List Call} (h : Makes a own) (b : β) :
    Makes (do let _ ← a; return b) own := by
  have same (s : Site) (t : Trace) :
      ((do let _ ← a; return b : Traced β).runOn (s, t)).2 = (a.runOn (s, t)).2 := by
    rw [Action.runOn_bind]
    rcases a.runOn (s, t) with ⟨e | _, s', t'⟩ <;> rfl
  constructor <;> intro s t <;> rw [same]
  · exact h.moves s t
  · exact h.genuine s t

theorem onMachine (f : Host.Machine → Host.Machine) : Makes (Operation.onMachine f) fun _ => [] := by
  refine ⟨fun s t => ?_, fun _ _ _ => .inl⟩
  rw [List.append_nil]
  exact .single (.host s _ (f s.machine))

end Traced.Makes

namespace Operation

open Traced

theorem performAll_cons (depth : Nat) (op : Operation) (ops : List Operation) (s : Site) (t : Trace) :
    (performAll depth (op :: ops)).runOn (s, t) =
      let (r, (s', t')) := (effect depth op).runOn (s, t)
      let t' := t' ++ [⟨depth, op, s, s', r⟩]
      match r with
      | .ok _ => (performAll depth ops).runOn (s', t')
      | .error e => (.error e, (s', t')) := by
  rw [performAll, Action.runOn_bind]
  show Action.runOn (_ >>= _) (s, t) = _
  rw [Action.runOn_bind, Action.runOn_attempt]
  rcases (effect depth op).runOn (s, t) with ⟨e | _, s', t'⟩ <;> rfl

mutual

theorem effect_makes (depth : Nat) (op : Operation) : Makes (effect depth op) fun s => op.calls s := by
  cases op with
  | within directory block =>
    exact .andReturn (.inDirectory (performAll_makes (depth + 1) block) directory) none
  | dispatch c => exact .andReturn (.dispatch Recipe.shipped c (by simp)) none
  | dispatchBlock c block =>
    exact .andReturn (.dispatch Recipe.shipped c (by simpa using performAll_makes (depth + 1) block)) none
  | createFile path => exact .andReturn (.onMachine _) none
  | deleteFile path => exact .andReturn (.onMachine _) none
  | _ =>
    rw [effect]
    · exact .ofProvision _
    all_goals nofun

theorem performAll_makes (depth : Nat) (ops : List Operation) :
    Makes (performAll depth ops) fun _ => [] := by
  cases ops with
  | nil =>
    rw [performAll]
    exact .quiet fun _ _ => rfl
  | cons op ops =>
    have rest := performAll_makes depth ops
    constructor <;> intro s t <;> rw [performAll_cons]
    · have made := (effect_makes depth op).moves s t
      rcases eq : (effect depth op).runOn (s, t) with ⟨r, s', t'⟩
      rw [eq] at made
      -- The record carries the operation's own calls into the trace.
      have recorded : Moves (s, Trace.calls t) (s', Trace.calls (t' ++ [⟨depth, op, s, s', r⟩])) := by
        rw [Trace.calls_concat]
        exact made
      cases r with
      | ok _ => exact recorded.trans (rest.moves s' _)
      | error e => rw [List.append_nil]; exact recorded
    · have made := (effect_makes depth op).genuine s t
      rcases eq : (effect depth op).runOn (s, t) with ⟨r, s', t'⟩
      rw [eq] at made
      have recorded : ∀ x ∈ t' ++ [⟨depth, op, s, s', r⟩], x ∈ t ∨ x.Genuine := by
        intro x hx
        rcases List.mem_append.mp hx with hx | hx
        · exact made x hx
        · rw [List.mem_singleton.mp hx]
          exact .inr ⟨t, t', eq⟩
      cases r with
      | ok _ => exact fun x hx => (rest.genuine s' _ x hx).elim (recorded x) .inr
      | error e => exact recorded

end

theorem perform_moves (op : Operation) (s : Site) :
    Moves (s, []) ((perform op s).2, Trace.calls (perform op s).1.1) := by
  have made := (performAll_makes 0 [op]).moves s []
  rw [List.append_nil] at made
  exact made

theorem performEach_genuine (ops : List Operation) (s : Site) :
    ∀ r ∈ trace ops s, r.Genuine := by
  induction ops generalizing s with
  | nil => simp [trace, performEach]
  | cons op ops ih =>
    intro r hr
    rcases List.mem_append.mp hr with hr | hr
    · exact ((performAll_makes 0 [op]).genuine s [] r hr).resolve_left List.not_mem_nil
    · exact ih _ r hr

/-- The record of a request tells its answer. -/
theorem genuine_fetch {r : Record} {url file : String} (h : r.Genuine) (fetch : r.operation = .fetch url file) :
    r.outcome = .ok (some ((Call.request r.before url file).path, (Call.request r.before url file).status)) := by
  obtain ⟨t, t', eq⟩ := h
  rw [fetch, effect] at eq
  · exact (Prod.mk.inj eq).1.symm
  all_goals nofun

theorem allCalls_cons (op : Operation) (ops : List Operation) (s : Site) :
    allCalls (op :: ops) s = Trace.calls (perform op s).1.1 ++ allCalls ops (perform op s).2 :=
  Trace.calls_append _ _

theorem allCalls_fetch (url file : String) (ops : List Operation) (s : Site) :
    allCalls (.fetch url file :: ops) s =
      .request s url file :: allCalls ops (Call.request s url file).after := by
  rw [allCalls_cons]
  rfl

theorem allCalls_installZip (url : String) (ops : List Operation) (s : Site) :
    allCalls (.installZip url :: ops) s =
      .install s (.zip url) :: allCalls ops (Call.install s (.zip url)).after := by
  rw [allCalls_cons]
  rfl

/-- A run of operations is a sequence of moves, and its calls are those of its trace. -/
theorem performEach_moves (ops : List Operation) (s : Site) :
    Moves (s, []) ((performEach ops s).2, allCalls ops s) := by
  induction ops generalizing s with
  | nil => exact .refl
  | cons op ops ih =>
    have later := (ih (perform op s).2).shift (Trace.calls (perform op s).1.1)
    rw [List.append_nil] at later
    rw [allCalls_cons]
    exact (perform_moves op s).trans later

/-- Nothing is asked for after a failure inside a block, but the operations after the block go on. -/
example (s : Site) : (allCalls [.fetch "u" "f", .within "d" [.installZip "u", .fail "no", .fetch "v" "g"],
    .fetch "u" "f"] s).map Call.pair = [("u", "f"), ("u", "install.zip"), ("u", "f")] := rfl

end Operation

end Provisioning
