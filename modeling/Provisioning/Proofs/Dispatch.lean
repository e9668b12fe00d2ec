import Mathlib.Data.Option.Basic
import Provisioning.Recipe

/-! The course of a statement: it is refused, takes the steps of a recipe, or runs its block in a directory.
Which of these it is depends on the statement's text, on the platform and on whether there is a block, but on
nothing else that a build holds. Two ways of running blocks that agree on the block agree on the
statement. -/

namespace Provisioning

variable {σ ε δ τ τ' α β : Type}

namespace Action

theorem runOn_bind (a : Action σ ε α) (f : α → Action σ ε β) (s : σ) :
    (a >>= f).runOn s =
      match a.runOn s with
      | (.ok x, s) => (f x).runOn s
      | (.error e, s) => (.error e, s) := by
  have start : (a >>= f).runOn s = (ExceptT.bindCont f (a.runOn s).1 : StateM σ _) (a.runOn s).2 := rfl
  rw [start]
  rcases a.runOn s with ⟨_ | _, s⟩ <;> rfl

theorem runOn_attempt (a : Action σ ε α) (s : σ) :
    (a.attempt : Action σ δ (Except ε α)).runOn s = (.ok (a.runOn s).1, (a.runOn s).2) := rfl

end Action

/-! ### Courses -/

/-- What a statement comes to before any of it is done. -/
inductive Course where
  | refused (cause : Failure)
  | steps (p : Provision Unit)
  | inside (directory : String)

namespace Registry

/-- The course of a statement, `blocked` if it has a block. -/
def course (r : Registry Recipe) (c : Command) (platform : Platform) (blocked : Bool) : Course :=
  match r.resolve c.subject c.action platform with
  | .error e => .refused (.dispatch e)
  | .ok (.steps run) => .steps (run c.arguments)
  | .ok .scope =>
    match c.arguments.string 0 "dir" with
    | .error e => .refused (.argument e)
    | .ok directory =>
      if blocked then .inside directory else .refused (.argument (.missingBlock c.label))

end Registry

/-- Takes a course. Only a statement with a block has one that leads inside. -/
def Course.follow (block : Option (Nested τ Unit)) : Course → Nested τ Unit
  | .refused e => throw e
  | .steps p => .ofProvision p
  | .inside directory =>
    match block with
    | some b => b.inDirectory directory
    | none => pure ()

namespace Nested

theorem runOn_ofProvision (p : Provision α) (s : Site) (t : τ) :
    (Nested.ofProvision p).runOn (s, t) = ((p.perform s).1, ((p.perform s).2, t)) := rfl

theorem runOn_inDirectory (directory : String) (block : Nested τ Unit) (s : Site) (t : τ) :
    (block.inDirectory directory).runOn (s, t) =
      ((block.runOn (s.enter directory, t)).1,
        ((block.runOn (s.enter directory, t)).2.1.leaveTo s.build.depth,
          (block.runOn (s.enter directory, t)).2.2)) := rfl

end Nested

namespace Registry

theorem dispatch_runOn (r : Registry Recipe) (c : Command) (block : Option (Nested τ Unit)) (s : Site)
    (t : τ) : (r.dispatch c block).runOn (s, t) =
      ((r.course c s.build.platform block.isSome).follow block).runOn (s, t) := by
  have got : (get : Nested τ (Site × τ)).runOn (s, t) = (.ok (s, t), (s, t)) := rfl
  rw [dispatch, Action.runOn_bind, got, course]
  dsimp only
  cases r.resolve c.subject c.action s.build.platform with
  | error e => rfl
  | ok recipe =>
    cases recipe with
    | steps run => rfl
    | scope =>
      simp only [Recipe.apply, Invocation.takeBlock]
      cases c.arguments.string 0 "dir" with
      | error e => rfl
      | ok directory => cases block <;> rfl

end Registry

/-! ### Agreement -/

/-- Two ends of an action: the same outcome and the same site, and states that are related. -/
structure SameEnd (R : τ → τ' → Prop) (x : Except Failure α × Site × τ)
    (y : Except Failure α × Site × τ') : Prop where
  outcome : x.1 = y.1
  site : x.2.1 = y.2.1
  state : R x.2.2 y.2.2

theorem SameEnd.eq_map {f : τ' → τ} {x : Except Failure α × Site × τ} {y : Except Failure α × Site × τ'}
    (h : SameEnd (fun t t' => t = f t') x y) : x = (y.1, y.2.1, f y.2.2) :=
  Prod.ext h.outcome (Prod.ext h.site h.state)

/-- From the same site and related states the actions come to the same end. -/
def Nested.Agrees (R : τ → τ' → Prop) (a : Nested τ α) (b : Nested τ' α) : Prop :=
  ∀ s t t', R t t' → SameEnd R (a.runOn (s, t)) (b.runOn (s, t'))

theorem Nested.Agrees.inDirectory {R : τ → τ' → Prop} {a : Nested τ Unit} {b : Nested τ' Unit}
    (h : Nested.Agrees R a b) (directory : String) :
    Nested.Agrees R (a.inDirectory directory) (b.inDirectory directory) := by
  intro s t t' ht
  have inner := h (s.enter directory) t t' ht
  rw [runOn_inDirectory, runOn_inDirectory]
  exact ⟨inner.outcome, by rw [inner.site], inner.state⟩

theorem Course.follow_agrees {R : τ → τ' → Prop} {block : Option (Nested τ Unit)}
    {block' : Option (Nested τ' Unit)} (h : Option.Rel (Nested.Agrees R) block block') (course : Course) :
    Nested.Agrees R (course.follow block) (course.follow block') := by
  cases course with
  | refused e => exact fun s t t' ht => ⟨rfl, rfl, ht⟩
  | steps p => exact fun s t t' ht => ⟨rfl, rfl, ht⟩
  | inside directory =>
    cases h with
    | some h => exact h.inDirectory directory
    | none => exact fun s t t' ht => ⟨rfl, rfl, ht⟩

/-- A statement comes to the same end with blocks that agree. -/
theorem Registry.dispatch_agrees {R : τ → τ' → Prop} {block : Option (Nested τ Unit)}
    {block' : Option (Nested τ' Unit)} (h : Option.Rel (Nested.Agrees R) block block')
    (r : Registry Recipe) (c : Command) :
    Nested.Agrees R (r.dispatch c block) (r.dispatch c block') := by
  intro s t t' ht
  have same : block.isSome = block'.isSome := by cases h <;> rfl
  rw [dispatch_runOn, dispatch_runOn, same]
  exact Course.follow_agrees h _ s t t' ht

end Provisioning
