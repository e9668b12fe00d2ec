import Mathlib.Data.Option.Basic
import Provisioning.Config.Script

/-! Ways of playing a script. They differ in how a statement is made and in nothing else; so what holds of
every statement, if it holds of the statement's block, holds of every script. -/

namespace Provisioning.Config.Script

variable {ω α σ τ : Type}

/-- A way of making statements. It is given a statement and the way in which the statement's block plays, if
there is one; it gives the statement's outcome and the end of the block, if the block ran. -/
abbrev Maker (ω σ : Type) :=
  Command → Option (σ → ω × σ) → σ → (Except Failure Unit × Option ω) × σ

/-- `play` makes the statements of a script one after another, each as `make` does. -/
structure Plays (make : Maker ω σ) (play : {α : Type} → Script ω α → σ → α × σ) : Prop where
  done {α : Type} (a : α) (s : σ) : play (.done a) s = (a, s)
  statement {α : Type} (c : Command) (next : Except String Unit → Script ω α) (s : σ) :
    play (.statement c next) s =
      play (next ((make c none s).1.1.mapError Failure.message)) (make c none s).2
  blockStatement {α : Type} (c : Command) (block : Script ω ω)
      (next : Except String Unit → Option ω → Script ω α) (s : σ) :
    play (.blockStatement c block next) s =
      play (next ((make c (some (play block)) s).1.1.mapError Failure.message)
        (make c (some (play block)) s).1.2) (make c (some (play block)) s).2

/-- From related states the two come to the same, and to related states. -/
def Simulates (R : σ → τ → Prop) (play : σ → α × σ) (play' : τ → α × τ) : Prop :=
  ∀ s t, R s t → (play s).1 = (play' t).1 ∧ R (play s).2 (play' t).2

/-- What held before holds after. -/
def Keeps (I : σ → Prop) (play : σ → α × σ) : Prop := ∀ s, I s → I (play s).2

theorem rel_map {R : σ → τ → Prop} {S : ω → α → Prop} {f : σ → ω} {g : τ → α} {x : Option σ} {y : Option τ}
    (h : Option.Rel R x y) (related : ∀ {s t}, R s t → S (f s) (g t)) :
    Option.Rel S (x.map f) (y.map g) := by
  cases h with
  | some h => exact .some (related h)
  | none => exact .none

namespace Plays

variable {make : Maker ω σ} {play : {α : Type} → Script ω α → σ → α × σ} {make' : Maker ω τ}
  {play' : {α : Type} → Script ω α → τ → α × τ}

theorem simulates {R : σ → τ → Prop} (plays : Plays make play) (plays' : Plays make' play')
    (made : ∀ c {block block'}, Option.Rel (Simulates R) block block' →
      Simulates R (make c block) (make' c block')) (script : Script ω α) :
    Simulates R (play script) (play' script) := by
  induction script with
  | done a =>
    intro s t related
    rw [plays.done, plays'.done]
    exact ⟨rfl, related⟩
  | statement c next ih =>
    intro s t related
    obtain ⟨same, related⟩ := made c .none s t related
    rw [plays.statement, plays'.statement, same]
    exact ih _ _ _ related
  | blockStatement c block next ihBlock ih =>
    intro s t related
    obtain ⟨same, related⟩ := made c (.some ihBlock) s t related
    rw [plays.blockStatement, plays'.blockStatement, same]
    exact ih _ _ _ _ related

theorem keeps {I : σ → Prop} (plays : Plays make play)
    (made : ∀ c {block}, (∀ inner ∈ block, Keeps I inner) → Keeps I (make c block))
    (script : Script ω α) : Keeps I (play script) := by
  induction script with
  | done a =>
    intro s held
    rw [plays.done]
    exact held
  | statement c next ih =>
    intro s held
    rw [plays.statement]
    exact ih _ _ (made c (by simp) s held)
  | blockStatement c block next ihBlock ih =>
    intro s held
    rw [plays.blockStatement]
    exact ih _ _ _ (made c (by simpa using ihBlock) s held)

end Plays

theorem run_plays (r : Registry Recipe) (report : ω → Except String Unit) :
    Plays (fun c block => makeStatement r c (block.map (blockAction report))) (run r report) :=
  ⟨fun _ _ => rfl, fun _ _ _ => rfl, fun _ _ _ _ => rfl⟩

end Provisioning.Config.Script
