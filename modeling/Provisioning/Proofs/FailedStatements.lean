import Provisioning.Proofs.Recipe.Refusal
import Provisioning.Proofs.Writing.Script

/-! What a failed statement leaves. If its block did not start, the build is as it was; if the block failed, the
block's own writings are all that was added. -/

namespace Provisioning

open Config.Script

variable {τ : Type}

theorem Registry.course_inside {r : Registry Recipe} {c : Command} {platform : Platform} {blocked : Bool}
    {directory : String} (h : r.course c platform blocked = .inside directory) :
    r.resolve c.subject c.action platform = .ok .scope ∧ c.arguments.string 0 "dir" = .ok directory := by
  unfold course at h
  split at h
  · cases h
  · cases h
  · next resolved =>
    split at h
    · cases h
    · next named =>
      split at h
      · obtain rfl := Course.inside.inj h
        exact ⟨resolved, named⟩
      · cases h

/-- The statement runs its block in a directory. -/
structure Command.Opens (c : Command) (directory : String) : Prop where
  subject : c.subject = "Dir"
  action : c.action = some "In"
  argument : c.arguments.string 0 "dir" = .ok directory

theorem Registry.shipped_course_opens {c : Command} {platform : Platform} {blocked : Bool} {directory : String}
    (h : Recipe.shipped.course c platform blocked = .inside directory) : c.Opens directory := by
  obtain ⟨resolved, named⟩ := course_inside h
  obtain ⟨b, hb, subject, action, scope⟩ := mem_of_resolve resolved
  obtain ⟨dir, inside⟩ := Recipe.shipped_scope hb scope
  exact ⟨subject ▸ dir, action ▸ congrArg some inside, named⟩

/-- The ways in which a statement that failed with `e` has led from `s` to `s'`. Its block writes `ws`. -/
inductive Command.Failed (c : Command) (block : Option (Nested τ Unit)) (ws : Option (Site → List Writing))
    (s : Site) (t : τ) (e : Failure) (s' : Site) (t' : τ) : Prop
  /-- The block did not start, so it does not matter which block it is. -/
  | refused
      (idle : ∀ other : Option (Nested τ Unit), other.isSome = block.isSome →
        (Recipe.shipped.dispatch c other).runOn (s, t) = (.error e, (s', t)))
      (state : t' = t) (build : s'.build = s.build)
      (machine : s'.machine = s.machine ∨ ∃ path cause, e = .createDirectory path cause)
  /-- The block failed, and the statement fails as it did. -/
  | inside {b : Nested τ Unit} {w : Site → List Writing} {directory : String} {inner : Site}
      (running : b ∈ block) (telling : w ∈ ws) (opens : c.Opens directory)
      (own : b.runOn (s.enter directory, t) = (.error e, (inner, t')))
      (left : s' = inner.leaveTo s.build.depth)
      (wrote : s.build.Writes ((w (s.enter directory)).map (·.inside [directory])) s'.build)

/-- A statement whose block closes what it opens leaves nothing half done when it fails. -/
theorem Nested.Writes.failed {c : Command} {block : Option (Nested τ Unit)} {ws : Option (Site → List Writing)}
    (h : Option.Rel Nested.Writes ws block) {s s' : Site} {t t' : τ} {e : Failure}
    (failed : (Recipe.shipped.dispatch c block).runOn (s, t) = (.error e, (s', t'))) :
    c.Failed block ws s t e s' t' := by
  have others (other : Option (Nested τ Unit)) (same : other.isSome = block.isSome) :
      (Recipe.shipped.dispatch c other).runOn (s, t) =
        ((Recipe.shipped.course c s.build.platform block.isSome).follow other).runOn (s, t) := by
    rw [Registry.dispatch_runOn, same]
  rw [others block rfl] at failed
  cases course : Recipe.shipped.course c s.build.platform block.isSome with
  | refused cause =>
    rw [course] at failed others
    cases failed
    exact .refused others rfl rfl (.inl rfl)
  | steps p =>
    rw [course] at failed others
    rw [Course.follow, Nested.runOn_ofProvision, Prod.mk.injEq, Prod.mk.injEq] at failed
    obtain ⟨outcome, site, state⟩ := failed
    have performed : p.perform s = (.error e, s') := Prod.ext outcome site
    obtain ⟨build, machine⟩ := (Registry.shipped_course_checksFirst course).perform_error performed
    refine .refused (fun other same => ?_) state.symm build machine
    rw [others other same, Course.follow, Nested.runOn_ofProvision, performed]
  | inside directory =>
    rw [course] at failed
    cases h with
    | none => cases failed
    | @some w b wrote =>
      have closed := wrote.inDirectory directory s t
      have ran : (b.inDirectory directory).runOn (s, t) = (.error e, (s', t')) := failed
      rw [ran] at closed
      rw [Nested.runOn_inDirectory, Prod.mk.injEq, Prod.mk.injEq] at ran
      obtain ⟨own, left, state⟩ := ran
      refine .inside rfl rfl (Registry.shipped_course_opens course) ?_ left.symm closed
      exact Prod.ext own (Prod.ext rfl state)

/-- A configuration's block, as a recipe runs it, writes what its script writes. -/
theorem Config.Script.blockAction_writes {ω : Type} (r : Registry Recipe) (report : ω → Except String Unit)
    (script : Config.Script ω ω) :
    (blockAction report (run r report script)).Writes (writings r report script) := by
  intro s t
  obtain ⟨-, site, -⟩ := run_direct r report script ⟨s.machine, t.1.put s.build⟩
  have wrote := direct_writes r report script (s, [])
  have same : ((blockAction report (run r report script)).runOn (s, t)).2.1 =
      (run r report script ⟨s.machine, t.1.put s.build⟩).2.site := rfl
  rw [same, site]
  exact wrote

/-- Whatever a statement is and whatever its block holds: if it fails and its block did not start, the build is as
it was, and so is the host unless a directory could not be made. If its block failed, so does the statement with the
same failure, the directories are those from before, and the session has the block's own writings in addition. -/
theorem failed_statement (c : Command) (s : Site) :
    (∀ (depth : Nat) (block : Option (List Operation)) (t : Trace) (e : Failure) (s' : Site) (t' : Trace),
      (Recipe.shipped.dispatch c (block.map (Operation.performAll depth))).runOn (s, t) = (.error e, (s', t')) →
        c.Failed (block.map (Operation.performAll depth)) (block.map Operation.blockWritings) s t e s' t') ∧
      ∀ {ω : Type} (report : ω → Except String Unit) (block : Option (Config.Script ω ω))
        (t : Config.Script.Progress ω) (e : Failure) (s' : Site) (t' : Config.Script.Progress ω),
        (Recipe.shipped.dispatch c (block.map fun b => blockAction report (run Recipe.shipped report b))).runOn
            (s, t) = (.error e, (s', t')) →
          c.Failed (block.map fun b => blockAction report (run Recipe.shipped report b))
            (block.map (writings Recipe.shipped report)) s t e s' t' := by
  constructor
  · intro depth block t e s' t' failed
    refine Nested.Writes.failed ?_ failed
    cases block with
    | none => exact .none
    | some ops => exact .some (Operation.performAll_writes depth ops)
  · intro ω report block t e s' t' failed
    refine Nested.Writes.failed ?_ failed
    cases block with
    | none => exact .none
    | some script => exact .some (blockAction_writes Recipe.shipped report script)

end Provisioning
