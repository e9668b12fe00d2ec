import Provisioning.Proofs.Build.Calls
import Provisioning.Proofs.Script.Direct

/-! The session of a script. Statements only ever add to it, a block's statements before the statement that
holds the block; so the session is what was there at first and what the finished statements added, in the
order in which they finished. -/

namespace Provisioning.Config.Script

variable {ω α : Type} {base : List Directive}

/-- All that is in the session beyond `base` was added by a finished statement. -/
def Accounted (base : List Directive) (a : Account) : Prop :=
  a.1.build.session.directives = base ++ a.2.flatMap Finished.added

/-- What a statement's recipe leaves behind: the accounts of its block, or what it added itself. -/
def Settles (base : List Directive) (a : Account)
    (e : Except Failure Unit × Site × List Finished × Option ω) : Prop :=
  if e.2.2.2.isSome then Accounted base (e.2.1, e.2.2.1)
  else e.2.2.1 = a.2 ∧ a.1.build.session.directives <+: e.2.1.build.session.directives

theorem follow_settles (report : ω → Except String Unit) {block : Option (Account → ω × Account)}
    (h : ∀ play ∈ block, Keeps (Accounted base) play) (course : Course) {a : Account} (start : Accounted base a) :
    Settles base a ((course.follow (block.map (directBlock report))).runOn (a.1, (a.2, none))) := by
  cases course with
  | refused e => exact ⟨rfl, List.prefix_rfl⟩
  | steps p => exact ⟨rfl, (p.perform_moves a.1 []).grown.session⟩
  | inside directory =>
    cases block with
    | none => exact ⟨rfl, List.prefix_rfl⟩
    | some play => exact h play rfl (a.1.enter directory, a.2) start

theorem directEnd_accounted {a : Account} {e : Except Failure Unit × Site × List Finished × Option ω}
    (start : Accounted base a) (settled : Settles base a e) (c : Command) :
    Accounted base (directEnd c a.1.build e).2 := by
  obtain ⟨o, site, l, w⟩ := e
  show site.build.session.directives = base ++ (l ++ [_]).flatMap Finished.added
  rw [List.flatMap_append, List.flatMap_singleton, ← List.append_assoc]
  cases w with
  | some w => exact settled.trans (List.append_nil _).symm
  | none =>
    obtain ⟨rfl, grown⟩ := settled
    rw [← start]
    exact (List.prefix_iff_eq_append.mp grown).symm

/-- A statement keeps accounts if its block does. -/
theorem directStatement_balances (report : ω → Except String Unit) (block : Option (Account → ω × Account))
    (h : ∀ play ∈ block, Keeps (Accounted base) play) (r : Registry Recipe) (c : Command) :
    Keeps (Accounted base) (directStatement r c (block.map (directBlock report))) := by
  intro a start
  rw [directStatement, Registry.dispatch_runOn]
  exact directEnd_accounted start (follow_settles report h _ start) c

/-- A script keeps accounts. -/
theorem direct_balances (r : Registry Recipe) (report : ω → Except String Unit) (script : Script ω α) :
    Keeps (Accounted base) (direct r report script) :=
  (direct_plays r report).keeps (fun c block h => directStatement_balances report block h r c) script

end Provisioning.Config.Script
