import Provisioning.Proofs.Script.Custody

/-! What a run comes to on its way. A run passes from a script to what is left of it after a statement, and into the
block of a statement that runs it. The statements that have finished at any point of a run are the first ones of those
that have finished at its end. -/

namespace Provisioning.Config.Script

variable {ω α β : Type} {r : Registry Recipe} {report : ω → Except String Unit}

/-! ### One script after another -/

theorem bind_assoc {γ : Type} (script : Script ω α) (f : α → Script ω β) (g : β → Script ω γ) :
    (script.bind f).bind g = script.bind fun x => (f x).bind g := by
  induction script with
  | done => rfl
  | statement c next ih => exact congrArg (Script.statement c) (funext fun r => ih r f)
  | blockStatement c block next _ ih =>
    exact congrArg (Script.blockStatement c block) (funext fun r => funext fun w => ih r w f)

theorem direct_bind (script : Script ω α) (f : α → Script ω β) (a : Account) :
    direct r report (script.bind f) a =
      direct r report (f (direct r report script a).1) (direct r report script a).2 := by
  induction script generalizing a with
  | done => rfl
  | statement c next ih => exact ih _ _ _
  | blockStatement c block next _ ih => exact ih _ _ _ _

theorem repeatFrom_succ {σ : Type} (step : σ → Script ω (σ ⊕ β)) (give : σ → Script ω β) (bound : Nat) (s : σ) :
    repeatFrom step give (bound + 1) s = (step s).bind fun
      | .inl s => repeatFrom step give bound s
      | .inr b => .done b := by
  rw [repeatFrom]
  cases step s with
  | done x => cases x <;> rfl
  | _ => rfl

theorem bind_done (x : Script ω α) : x.bind .done = x := by
  induction x with
  | done => rfl
  | statement c next ih => exact congrArg (Script.statement c) (funext fun r => ih r)
  | blockStatement c block next _ ih =>
    exact congrArg (Script.blockStatement c block) (funext fun r => funext fun w => ih r w)

/-! ### Statements that have finished stay -/

/-- The statements `past` have finished, maybe with others after them. -/
def Finishes (past : List Finished) (a : Account) : Prop := past <+: a.2

theorem follow_finishes (report : ω → Except String Unit) {past : List Finished}
    {block : Option (Account → ω × Account)} (h : ∀ play ∈ block, Keeps (Finishes past) play) (course : Course)
    {a : Account} (start : Finishes past a) :
    past <+: ((course.follow (block.map (directBlock report))).runOn (a.1, (a.2, none))).2.2.1 := by
  cases course with
  | refused e => exact start
  | steps p => exact start
  | inside directory =>
    cases block with
    | none => exact start
    | some play => exact h play rfl (a.1.enter directory, a.2) start

/-- A statement finishes after those of its block. -/
theorem directStatement_finishes (report : ω → Except String Unit) {past : List Finished}
    {block : Option (Account → ω × Account)} (h : ∀ play ∈ block, Keeps (Finishes past) play) (r : Registry Recipe)
    (c : Command) {a : Account} (start : Finishes past a) :
    let e := directStatement r c (block.map (directBlock report)) a
    ∃ inner f, e.2.2 = past ++ inner ++ [f] ∧ f.command = c ∧ f.before = a.1.build ∧ f.outcome = e.1.1 := by
  dsimp only
  rw [directStatement, Registry.dispatch_runOn]
  obtain ⟨inner, eq⟩ := follow_finishes report h
    (r.course c a.1.build.platform (block.map (directBlock report)).isSome) start
  exact ⟨inner, _, congrArg (· ++ _) eq.symm, rfl, rfl, rfl⟩

theorem direct_finishes (past : List Finished) (script : Script ω α) :
    Keeps (Finishes past) (direct r report script) := by
  refine (direct_plays r report).keeps (fun c block h a start => ?_) script
  obtain ⟨inner, f, eq, -⟩ := directStatement_finishes report h r c start
  exact ⟨inner ++ [f], by rw [eq, List.append_assoc]⟩

/-! ### The way of a run -/

/-- The run of a script comes to the piece `x` on the account `b`, at the script's own level or in a block. -/
inductive Reaches (r : Registry Recipe) (report : ω → Except String Unit) (x : Script ω β) (b : Account) :
    {α : Type} → Script ω α → Account → Prop
  | here {α : Type} (next : β → Script ω α) : Reaches r report x b (x.bind next) b
  | after {α : Type} {c : Command} {next : Except String Unit → Script ω α} {a : Account}
      (later : Reaches r report x b (next ((directStatement (ω := ω) r c none a).1.1.mapError Failure.message))
        (directStatement (ω := ω) r c none a).2) : Reaches r report x b (.statement c next) a
  | afterBlock {α : Type} {c : Command} {block : Script ω ω} {next : Except String Unit → Option ω → Script ω α}
      {a : Account} (later :
        let e := directStatement r c (some (directBlock report (direct r report block))) a
        Reaches r report x b (next (e.1.1.mapError Failure.message) e.1.2) e.2) :
      Reaches r report x b (.blockStatement c block next) a
  | inside {α : Type} {c : Command} {block : Script ω ω} {next : Except String Unit → Option ω → Script ω α}
      {a : Account} {directory : String} (opens : r.course c a.1.build.platform true = .inside directory)
      (inner : Reaches r report x b block (a.1.enter directory, a.2)) :
      Reaches r report x b (.blockStatement c block next) a

/-- What has finished when the run is through with a piece has finished at the end. -/
theorem Reaches.finished {x : Script ω β} {b : Account} {script : Script ω α} {a : Account}
    (h : Reaches r report x b script a) : (direct r report x b).2.2 <+: (direct r report script a).2.2 := by
  induction h with
  | here next =>
    rw [direct_bind]
    exact direct_finishes _ (next _) _ List.prefix_rfl
  | after _ ih => exact ih
  | afterBlock _ ih => exact ih
  | @inside _ c block next a directory opens _ ih =>
    -- The statement around the block finishes after the block's, and others may follow.
    have ended : (direct r report block (a.1.enter directory, a.2)).2.2 <+:
        (directStatement r c (some (directBlock report (direct r report block))) a).2.2 := by
      rw [directStatement, Registry.dispatch_runOn, Option.isSome_some, opens]
      exact List.prefix_append _ _
    exact ih.trans (ended.trans (direct_finishes _ (next _ _) _ List.prefix_rfl))

theorem Reaches.bind {γ : Type} {x : Script ω β} {b : Account} {script : Script ω α} {a : Account}
    (h : Reaches r report x b script a) (next : α → Script ω γ) : Reaches r report x b (script.bind next) a := by
  induction h with
  | here first =>
    rw [bind_assoc]
    exact .here _
  | after _ ih => exact .after (ih next)
  | afterBlock _ ih => exact .afterBlock (ih next)
  | inside opens inner ih => exact .inside opens inner

theorem Reaches.refl (x : Script ω β) (b : Account) : Reaches r report x b x b := by
  have here : Reaches r report x b (x.bind .done) b := .here _
  rwa [bind_done] at here

end Provisioning.Config.Script
