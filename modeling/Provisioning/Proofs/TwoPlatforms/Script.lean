import Provisioning.Proofs.TwoPlatforms.Provision
import Provisioning.Proofs.Writing.Script

/-! A script on two platforms. Statements that succeed on one platform, at every depth, have the same effect one
by one on a platform that has all of its recipes. -/

namespace Provisioning

theorem Registry.course_covered {r : Registry Recipe} {p q : Platform} (covers : r.Covers p q) (c : Command)
    (blocked : Bool) :
    (∃ e, r.course c p blocked = .refused e) ∨ r.course c q blocked = r.course c p blocked := by
  cases resolved : r.resolve c.subject c.action p with
  | error e =>
    refine .inl ⟨.dispatch e, ?_⟩
    simp only [course, resolved]
  | ok recipe =>
    obtain ⟨name, named, found⟩ := resolve_eq_ok.mp resolved
    have covered : r.resolve c.subject c.action q = .ok recipe := resolve_eq_ok.mpr ⟨name, named, covers found⟩
    refine .inr ?_
    simp only [course, resolved, covered]

namespace Config.Script

variable {ω α : Type} {p q : Platform} {r : Registry Recipe}

def Finished.on (f : Finished) (p : Platform) : Finished :=
  { f with before := f.before.on p, after := f.after.on p }

def Account.on (a : Account) (p : Platform) : Account := (a.1.on p, a.2.map (·.on p))

/-- Where all goes well on `p`, the play comes to the same on `q`. -/
def Carries (p q : Platform) (play : Account → α × Account) : Prop :=
  ∀ a : Account, a.1.build.platform = p → (∀ f ∈ (play a).2.2, f.outcome = .ok ()) →
    play (a.on q) = ((play a).1, (play a).2.on q) ∧ (play a).2.1.build.platform = p

/-- What a statement's recipe leaves behind, on `p`. -/
def endOn (p : Platform) : Except Failure Unit × Site × List Finished × Option ω →
    Except Failure Unit × Site × List Finished × Option ω
  | (o, s, l, w) => (o, s.on p, l.map (·.on p), w)

theorem follow_carries (report : ω → Except String Unit) {block : Option (Account → ω × Account)}
    (h : ∀ play ∈ block, Carries p q play) (course : Course) {a : Account} (home : a.1.build.platform = p) :
    let follow := (course.follow (block.map (directBlock report))).runOn
    (follow (a.1, (a.2, none))).1 = .ok () → (∀ f ∈ (follow (a.1, (a.2, none))).2.2.1, f.outcome = .ok ()) →
      follow ((a.on q).1, ((a.on q).2, none)) = endOn q (follow (a.1, (a.2, none))) ∧
        (follow (a.1, (a.2, none))).2.1.build.platform = p := by
  intro follow succeeded fine
  cases course with
  | refused e => cases succeeded
  | steps recipe =>
    have same := recipe.perform_on a.1 q
    have kept := (recipe.perform_moves a.1 []).grown.platform
    exact ⟨congrArg (fun x => (x.1, x.2, (a.on q).2, none)) same, kept.trans home⟩
  | inside directory =>
    cases block with
    | none => exact ⟨rfl, home⟩
    | some play =>
      obtain ⟨same, there⟩ := h play rfl (a.1.enter directory, a.2) home fine
      exact ⟨congrArg (fun x : ω × Account => ((report x.1).mapError Failure.block,
        x.2.1.leaveTo a.1.build.depth, x.2.2, some x.1)) same, there⟩

theorem directEnd_on (c : Command) (b : Build) (x : Except Failure Unit × Site × List Finished × Option ω) :
    directEnd c (b.on q) (endOn q x) = ((directEnd c b x).1, (directEnd c b x).2.on q) := by
  obtain ⟨o, s, l, w⟩ := x
  simp only [directEnd, endOn, Account.on, List.map_append]
  rfl

theorem directEnd_fine {c : Command} {b : Build} {x : Except Failure Unit × Site × List Finished × Option ω}
    (fine : ∀ f ∈ (directEnd c b x).2.2, f.outcome = .ok ()) :
    x.1 = .ok () ∧ ∀ f ∈ x.2.2.1, f.outcome = .ok () := by
  obtain ⟨o, s, l, w⟩ := x
  exact ⟨fine _ (List.mem_append_right _ (List.mem_singleton_self _)), fun f hf =>
    fine f (List.mem_append_left _ hf)⟩

/-- A statement that succeeds on `p`, with all that is made in its block, comes to the same on `q`. -/
theorem directStatement_carries (covers : r.Covers p q) (report : ω → Except String Unit)
    (block : Option (Account → ω × Account)) (h : ∀ play ∈ block, Carries p q play) (c : Command) :
    Carries p q (directStatement r c (block.map (directBlock report))) := by
  intro a home fine
  have here := Registry.dispatch_runOn r c (block.map (directBlock report)) a.1 (a.2, none)
  have there := Registry.dispatch_runOn r c (block.map (directBlock report)) (a.on q).1 ((a.on q).2, none)
  have away : (a.on q).1.build.platform = q := rfl
  rw [home] at here
  rw [directStatement, here] at fine
  obtain ⟨succeeded, inner⟩ := directEnd_fine fine
  rw [directStatement, directStatement, here, there, away]
  -- A statement that succeeds is not refused, so both platforms follow one course.
  rcases Registry.course_covered covers c (block.map (directBlock report)).isSome with ⟨e, refused⟩ | same
  · rw [refused] at succeeded
    cases succeeded
  · obtain ⟨result, kept⟩ := follow_carries report h _ home succeeded inner
    rw [same, result]
    exact ⟨directEnd_on c a.1.build _, kept⟩

theorem direct_remembers (report : ω → Except String Unit) (script : Script ω α) (f : Finished) :
    Keeps (fun a : Account => f ∈ a.2) (direct r report script) := by
  refine (direct_plays r report).keeps (fun c block h => ?_) script
  intro a known
  refine List.mem_append_left _ ?_
  refine dispatch_keeps (K := fun p : List Finished × Option ω => f ∈ p.1) ?_ r c a.1 known
  intro b hb s t known
  obtain ⟨play, hplay, rfl⟩ := Option.map_eq_some_iff.mp hb
  exact h play hplay (s, t.1) known

/-- A script whose statements all succeed on `p` comes to the same on `q`, statement by statement. -/
theorem direct_carries (covers : r.Covers p q) (report : ω → Except String Unit) (script : Script ω α) :
    Carries p q (direct r report script) := by
  have plays := direct_plays r report
  induction script with
  | done x => exact fun a home _ => ⟨rfl, home⟩
  | statement c next ih =>
    intro a home fine
    rw [plays.statement] at fine
    -- What the statement finished is there at the end, so it has succeeded.
    obtain ⟨same, there⟩ := directStatement_carries covers report none (by simp) c a home fun f hf =>
      fine f (direct_remembers report _ f _ hf)
    rw [plays.statement, plays.statement, same]
    exact ih _ _ there fine
  | blockStatement c block next ihBlock ih =>
    intro a home fine
    rw [plays.blockStatement] at fine
    obtain ⟨same, there⟩ := directStatement_carries covers report (some (direct r report block))
      (by simpa using ihBlock) c a home fun f hf => fine f (direct_remembers report _ f _ hf)
    rw [plays.blockStatement, plays.blockStatement, same]
    exact ih _ _ _ there fine

theorem firstFailure_on (l : List Finished) (p : Platform) : firstFailure (l.map (·.on p)) = firstFailure l := by
  rw [firstFailure, List.findSome?_map]
  rfl

theorem Stage.eq_of_site {s t : Stage} (site : s.site = t.site) (failure : s.failure = t.failure) : s = t := by
  obtain ⟨m, b, f⟩ := s
  obtain ⟨m', b', f'⟩ := t
  cases site
  cases failure
  rfl

def Stage.on (s : Stage) (p : Platform) : Stage := { s with cell := { s.cell with build := s.cell.build.on p } }

/-- `direct_carries` with the build in a cell. -/
theorem run_carries (covers : r.Covers p q) (report : ω → Except String Unit) (script : Script ω α)
    {stage : Stage} (home : stage.site.build.platform = p)
    (fine : ∀ f ∈ (watched r report script (stage, .empty)).2.2.finished, f.outcome = .ok ()) :
    run r report script (stage.on q) = ((run r report script stage).1, (run r report script stage).2.on q) ∧
      (watched r report script (stage.on q, .empty)).2.2.finished =
        (watched r report script (stage, .empty)).2.2.finished.map (·.on q) := by
  have kept := (watched_atHome r report script stage).kept.finished
  have kept' := (watched_atHome r report script (stage.on q)).kept.finished
  rw [kept] at fine
  obtain ⟨same, -⟩ := direct_carries covers report script (stage.site, []) home fine
  obtain ⟨result, site, failure⟩ := run_direct r report script stage
  obtain ⟨result', site', failure'⟩ := run_direct r report script (stage.on q)
  -- Both runs are told by their accounts, and the accounts differ in the platform alone.
  have start : (((stage.on q).site, []) : Account) = Account.on (stage.site, []) q := rfl
  rw [start, same] at result' site' failure' kept'
  have unfailed : (run r report script (stage.on q)).2.failure = (run r report script stage).2.failure := by
    rw [failure', failure]
    exact congrArg _ (firstFailure_on _ q)
  refine ⟨Prod.ext (result'.trans result.symm) (Stage.eq_of_site ?_ unfailed), ?_⟩
  · exact site'.trans (congrArg (·.on q) site.symm)
  · rw [kept', kept]
    rfl

end Config.Script

end Provisioning
