import Provisioning.Proofs.Script.Custody
import Provisioning.Proofs.Writing.Operation

/-! What a script writes, and the main statement on scopes: whatever is run, a directory that is opened is
closed again, and each script that is written stands in the innermost directory open around it. -/

namespace Provisioning.Config.Script

variable {ω α β : Type}

/-! ### The list of finished statements does not matter -/

/-- The same site, whatever has finished. -/
abbrev SameSite (a a' : Account) : Prop := a.1 = a'.1

theorem directStatement_agrees (report : ω → Except String Unit) {block block' : Option (Account → ω × Account)}
    (h : Option.Rel (Simulates SameSite) block block') (r : Registry Recipe) (c : Command) :
    Simulates SameSite (directStatement r c (block.map (directBlock report)))
      (directStatement r c (block'.map (directBlock report))) := by
  rintro ⟨site, l⟩ ⟨_, l'⟩ rfl
  have blocks : Option.Rel (Nested.Agrees fun p q : List Finished × Option ω => p.2 = q.2)
      (block.map (directBlock report)) (block'.map (directBlock report)) := by
    refine rel_map h fun {play play'} same => ?_
    rintro s ⟨l, w⟩ ⟨l', w'⟩ -
    obtain ⟨result, site⟩ := same (s, l) (s, l') rfl
    exact ⟨congrArg (fun w => (report w).mapError Failure.block) result, site, congrArg some result⟩
  obtain ⟨outcome, site, ending⟩ := Registry.dispatch_agrees blocks r c site (l, none) (l', none) rfl
  exact ⟨Prod.ext outcome ending, site⟩

theorem direct_agrees (r : Registry Recipe) (report : ω → Except String Unit) (script : Script ω α) :
    Simulates SameSite (direct r report script) (direct r report script) :=
  (direct_plays r report).simulates (direct_plays r report)
    (fun c _ _ h => directStatement_agrees report h r c) script

/-! ### Writings -/

/-- The writings of a script. A block writes inside the directory that is opened for it. -/
def writings (r : Registry Recipe) (report : ω → Except String Unit) :
    {α : Type} → Script ω α → Site → List Writing
  | _, .done _, _ => []
  | _, .statement c next, s =>
    let ((outcome, _), (s', _)) := directStatement (ω := ω) r c none (s, [])
    r.writings c none s ++ writings r report (next (outcome.mapError Failure.message)) s'
  | _, .blockStatement c block next, s =>
    let ((outcome, w), (s', _)) :=
      directStatement r c (some (directBlock report (direct r report block))) (s, [])
    r.writings c (some (writings r report block)) s
      ++ writings r report (next (outcome.mapError Failure.message) w) s'

/-- The play writes what `ws` tells. -/
def PlayWrites (ws : Site → List Writing) (play : Account → α × Account) : Prop :=
  ∀ a : Account, a.1.build.Writes (ws a.1) (play a).2.1.build

theorem directStatement_writes (report : ω → Except String Unit) {ws : Option (Site → List Writing)}
    {block : Option (Account → ω × Account)} (h : Option.Rel PlayWrites ws block) (r : Registry Recipe)
    (c : Command) : PlayWrites (r.writings c ws) (directStatement r c (block.map (directBlock report))) := by
  intro a
  have blocks : Option.Rel Nested.Writes ws (block.map (directBlock report)) := by
    cases h with
    | some h => exact .some fun s p => h (s, p.1)
    | none => exact .none
  exact Nested.Writes.dispatch blocks r c a.1 (a.2, none)

/-- A statement and what comes after it. -/
theorem PlayWrites.andThen {ws : Site → List Writing} {make : Account → β × Account}
    {ws' : β → Site → List Writing} {play : β → Account → α × Account} (wrote : PlayWrites ws make)
    (agrees : Simulates SameSite make make) (later : ∀ x, PlayWrites (ws' x) (play x)) :
    PlayWrites (fun s => ws s ++ ws' (make (s, [])).1 (make (s, [])).2.1)
      fun a => play (make a).1 (make a).2 := by
  intro a
  obtain ⟨same, site⟩ := agrees a (a.1, []) rfl
  dsimp only
  rw [← same, ← site]
  exact (wrote a).trans (later (make a).1 (make a).2)

/-- A script writes what its statements and their blocks write. -/
theorem direct_writes (r : Registry Recipe) (report : ω → Except String Unit) (script : Script ω α) :
    PlayWrites (writings r report script) (direct r report script) := by
  induction script with
  | done x => exact fun a => .refl a.1.build
  | statement c next ih =>
    have wrote := directStatement_writes (ω := ω) report .none r c
    have agrees := directStatement_agrees (ω := ω) report .none r c
    exact wrote.andThen agrees fun x => ih (x.1.mapError Failure.message)
  | blockStatement c block next ihBlock ih =>
    have wrote := directStatement_writes report (.some ihBlock) r c
    have agrees := directStatement_agrees report (.some (direct_agrees r report block)) r c
    exact wrote.andThen agrees fun x => ih (x.1.mapError Failure.message) x.2

/-- The statement has left the build as it found it, but for what it and its block wrote. -/
def Finished.Restores (r : Registry Recipe) (report : ω → Except String Unit) (f : Finished) : Prop :=
  ∃ (m : Host.Machine) (block : Option (Script ω ω)),
    f.before.Writes (r.writings f.command (block.map (writings r report)) ⟨f.before, m⟩) f.after

/-- A statement keeps what its block keeps of a state beside the site. -/
theorem dispatch_keeps {τ : Type} {K : τ → Prop} {block : Option (Nested τ Unit)}
    (h : ∀ b ∈ block, ∀ s t, K t → K (b.runOn (s, t)).2.2) (r : Registry Recipe) (c : Command) (s : Site)
    {t : τ} (held : K t) : K ((r.dispatch c block).runOn (s, t)).2.2 := by
  rw [Registry.dispatch_runOn]
  cases r.course c s.build.platform block.isSome with
  | refused e => exact held
  | steps p => exact held
  | inside directory =>
    cases block with
    | none => exact held
    | some b => exact h b rfl (s.enter directory) t held

section

variable {r : Registry Recipe} {report : ω → Except String Unit}

/-- All that finished has left the build as it found it. -/
abbrev AllRestore (r : Registry Recipe) (report : ω → Except String Unit) (a : Account) : Prop :=
  ∀ f ∈ a.2, f.Restores r report

theorem directStatement_restores (block : Option (Script ω ω))
    (h : ∀ b ∈ block, Keeps (AllRestore r report) (direct r report b)) (c : Command) :
    Keeps (AllRestore r report)
      (directStatement r c ((block.map (direct r report)).map (directBlock report))) := by
  intro a held f hf
  have blocks : Option.Rel PlayWrites (block.map (writings r report)) (block.map (direct r report)) := by
    cases block with
    | some b => exact .some (direct_writes r report b)
    | none => exact .none
  -- What finished in the block is listed before the statement itself.
  rcases List.mem_append.mp hf with inner | own
  · refine dispatch_keeps (K := fun p : List Finished × Option ω => ∀ f ∈ p.1, f.Restores r report) ?_
      r c a.1 held f inner
    intro b hb s p kept
    obtain ⟨play, hplay, rfl⟩ := Option.map_eq_some_iff.mp hb
    obtain ⟨script, hscript, rfl⟩ := Option.map_eq_some_iff.mp hplay
    exact h script hscript (s, p.1) kept
  · rw [List.mem_singleton.mp own]
    exact ⟨a.1.machine, block, directStatement_writes report blocks r c a⟩

/-- All statements that finish in a script restore. -/
theorem direct_restores (script : Script ω α) : Keeps (AllRestore r report) (direct r report script) := by
  induction script with
  | done x => exact fun a held => held
  | statement c next ih =>
    intro a held
    exact ih _ _ (directStatement_restores none (by simp) c a held)
  | blockStatement c block next ihBlock ih =>
    intro a held
    exact ih _ _ _ (directStatement_restores (some block) (by simpa using ihBlock) c a held)

end

/-- Statements hand over no fragments. -/
theorem not_hands (report : ω → Except String Unit) (script : Script ω α) (s : Site) (f : Fragment) :
    ∀ w ∈ writings Recipe.shipped report script s, ¬w.Hands f := by
  induction script generalizing s with
  | done x => simp [writings]
  | statement c next ih =>
    intro w hw
    rcases List.mem_append.mp hw with own | later
    · intro hands
      obtain ⟨ws, none, -⟩ := Registry.hands_of_mem own hands
      cases none
    · exact ih _ _ w later
  | blockStatement c block next ihBlock ih =>
    intro w hw
    rcases List.mem_append.mp hw with own | later
    · intro hands
      obtain ⟨ws, same, s', w', inner, hands⟩ := Registry.hands_of_mem own hands
      obtain rfl := Option.some.inj same
      exact ihBlock s' w' inner hands
    · exact ih _ _ _ w later

end Provisioning.Config.Script

namespace Provisioning

open Config.Script

/-- Whatever is run, on its own or through a cell, and whether it fails or not: it leaves open the directories
that were open before, and adds to the session what it writes, each script for the innermost of the directories
that the tree has around it. Only the fragments that the tree has in it are added as they are. -/
theorem scopes_close :
    (∀ (ops : List Operation) (s : Site),
      s.build.Writes (Operation.allWritings ops s) (Operation.performEach ops s).2.build ∧
        ∀ r ∈ Operation.trace ops s,
          r.before.build.Writes (r.operation.writings r.before) r.after.build ∧
            ∀ w ∈ r.operation.writings r.before, ∀ f, w.Hands f → f ∈ r.operation.handed) ∧
      ∀ {ω α : Type} (report : ω → Except String Unit) (script : Config.Script ω α) (stage : Stage),
        stage.site.build.Writes (writings Recipe.shipped report script stage.site)
            (run Recipe.shipped report script stage).2.site.build ∧
          (∀ w ∈ writings Recipe.shipped report script stage.site, ∀ f, ¬w.Hands f) ∧
            ∀ f ∈ (watched Recipe.shipped report script (stage, .empty)).2.2.finished,
              f.Restores Recipe.shipped report := by
  refine ⟨fun ops s => ⟨Operation.performEach_writes ops s, fun r hr => ?_⟩, fun report script stage => ?_⟩
  · have genuine := Operation.performEach_genuine ops s r hr
    exact ⟨Operation.genuine_writes genuine, fun w hw f => Operation.handed_of_mem r.operation hw⟩
  · have wrote := direct_writes Recipe.shipped report script (stage.site, [])
    have direct := run_direct Recipe.shipped report script stage
    have home := watched_atHome Recipe.shipped report script stage
    rw [direct.2.1, home.kept.finished]
    exact ⟨wrote, fun w hw f => not_hands report script stage.site f w hw,
      direct_restores script (stage.site, []) fun f hf => absurd hf List.not_mem_nil⟩

end Provisioning
