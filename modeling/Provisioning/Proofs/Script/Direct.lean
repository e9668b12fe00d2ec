import Provisioning.Proofs.Dispatch
import Provisioning.Proofs.Script.Plays

/-! Scripts without a cell: the site is handed from one statement to the next and through the blocks, and the
statements that have finished are listed. The list is what a reader of a run wants to know; no statement
sees it. -/

namespace Provisioning.Config.Script

variable {ω α : Type}

/-- What is known of a statement when it has finished. -/
structure Finished where
  command : Command
  /-- The build that the statement was made for, and the one that it left. -/
  before : Build
  after : Build
  outcome : Except Failure Unit
  /-- The statement's block ran. -/
  nested : Bool

namespace Finished

def failure? (f : Finished) : Option Failure :=
  match f.outcome with
  | .ok () => none
  | .error e => some e

/-- What the statement added on its own; what a block adds is added by the block's statements. -/
def added (f : Finished) : List Directive :=
  if f.nested then [] else f.after.session.directives.drop f.before.session.size

theorem failure?_eq_none {f : Finished} : f.failure? = none ↔ f.outcome = .ok () := by
  unfold failure?
  cases f.outcome <;> simp

theorem failure?_eq_some {f : Finished} {e : Failure} : f.failure? = some e ↔ f.outcome = .error e := by
  unfold failure?
  cases f.outcome <;> simp

end Finished

/-- The error of the statement that was the first to finish with one. -/
def firstFailure (l : List Finished) : Option Failure := l.findSome? Finished.failure?

theorem firstFailure_eq_none {l : List Finished} :
    firstFailure l = none ↔ ∀ f ∈ l, f.outcome = .ok () := by
  rw [firstFailure, List.findSome?_eq_none_iff]
  simp only [Finished.failure?_eq_none]

theorem firstFailure_eq_some {l : List Finished} {e : Failure} : firstFailure l = some e ↔
    ∃ past f rest, l = past ++ f :: rest ∧ (∀ g ∈ past, g.outcome = .ok ()) ∧ f.outcome = .error e := by
  rw [firstFailure, List.findSome?_eq_some_iff]
  simp only [Finished.failure?_eq_none, Finished.failure?_eq_some, and_comm]

theorem firstFailure_cons (f : Finished) (l : List Finished) :
    firstFailure (f :: l) = f.failure?.or (firstFailure l) := by
  rw [firstFailure, List.findSome?_cons]
  cases f.failure? <;> rfl

theorem firstFailure_concat (l : List Finished) (f : Finished) :
    firstFailure (l ++ [f]) = (firstFailure l).or f.failure? := by
  rw [firstFailure, List.findSome?_append]
  cases h : f.failure? <;> simp [firstFailure, h]

/-- Where statements are made without a cell: the site, and what has finished. -/
abbrev Account := Site × List Finished

/-- A block as a recipe sees it. -/
def directBlock (report : ω → Except String Unit) (play : Account → ω × Account) :
    Nested (List Finished × Option ω) Unit :=
  ExceptT.mk fun (site, (l, _)) =>
    let (w, (site, l)) := play (site, l)
    ((report w).mapError .block, (site, (l, some w)))

/-- What a statement comes to that was made for the build `before`. -/
def directEnd (c : Command) (before : Build) :
    Except Failure Unit × Site × List Finished × Option ω → (Except Failure Unit × Option ω) × Account
  | (outcome, site, l, w) => ((outcome, w), (site, l ++ [⟨c, before, site.build, outcome, w.isSome⟩]))

/-- Makes a statement with the site at hand. -/
def directStatement (r : Registry Recipe) (c : Command)
    (block : Option (Nested (List Finished × Option ω) Unit)) (a : Account) :
    (Except Failure Unit × Option ω) × Account :=
  directEnd c a.1.build ((r.dispatch c block).runOn (a.1, (a.2, none)))

/-- Runs a script on one site that is threaded through statements and blocks. -/
def direct (r : Registry Recipe) (report : ω → Except String Unit) :
    {α : Type} → Script ω α → Account → α × Account
  | _, .done a, s => (a, s)
  | _, .statement c next, s =>
    let ((outcome, _), s) := directStatement (ω := ω) r c none s
    direct r report (next (outcome.mapError Failure.message)) s
  | _, .blockStatement c block next, s =>
    let ((outcome, w), s) := directStatement r c (some (directBlock report (direct r report block))) s
    direct r report (next (outcome.mapError Failure.message) w) s

theorem direct_plays (r : Registry Recipe) (report : ω → Except String Unit) :
    Plays (fun c block => directStatement r c (block.map (directBlock report))) (direct r report) :=
  ⟨fun _ _ => rfl, fun _ _ _ => rfl, fun _ _ _ _ => rfl⟩

end Provisioning.Config.Script
