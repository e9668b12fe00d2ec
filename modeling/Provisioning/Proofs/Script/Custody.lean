import Provisioning.Proofs.Script.Direct

/-! The build's way in and out of the cell. Every statement takes the build out of the cell and puts it back,
and every block finds it there; a stand-in lies in the cell meanwhile. Main statement: a script leaves in the
cell the build that it makes when one site is threaded through it, its statements see the same builds, and
what is overwritten in the cell is always an untouched stand-in. -/

namespace Provisioning.Config.Script

variable {ω α : Type}

/-! ### A watched run -/

/-- What is noted of a run: the statements that finished, and what lay in the cell whenever a build was put
there. -/
structure Journal where
  finished : List Finished
  overwritten : List Build

namespace Journal

def empty : Journal := ⟨[], []⟩

def overwrite (j : Journal) (c : Cell) : Journal := { j with overwritten := j.overwritten ++ [c.build] }

def finish (j : Journal) (f : Finished) : Journal := { j with finished := j.finished ++ [f] }

end Journal

/-- `blockAction` with a journal. -/
def watchedBlock (report : ω → Except String Unit) (play : Stage × Journal → ω × (Stage × Journal)) :
    Nested (Progress ω × Journal) Unit :=
  ExceptT.mk fun (site, ((cell, _), j)) =>
    let (w, (stage, j)) := play (⟨site.machine, cell.put site.build⟩, j.overwrite cell)
    let (build, cell) := stage.cell.take
    ((report w).mapError .block, (⟨build, stage.machine⟩, ((cell, some w), j)))

/-- What a statement comes to that was made for the build `before`. -/
def watchedEnd (c : Command) (before : Build) : Except Failure Unit × Site × Progress ω × Journal →
    (Except Failure Unit × Option ω) × (Stage × Journal)
  | (outcome, site, (cell, w), j) =>
    ((outcome, w), (⟨site.machine, (cell.put site.build).note outcome⟩,
      (j.overwrite cell).finish ⟨c, before, site.build, outcome, w.isSome⟩))

/-- `makeStatement` with a journal. -/
def watchedStatement (r : Registry Recipe) (c : Command)
    (block : Option (Nested (Progress ω × Journal) Unit)) (s : Stage × Journal) :
    (Except Failure Unit × Option ω) × (Stage × Journal) :=
  watchedEnd c s.1.cell.take.1
    ((r.dispatch c block).runOn (⟨s.1.cell.take.1, s.1.machine⟩, ((s.1.cell.take.2, none), s.2)))

/-- `run` with a journal. -/
def watched (r : Registry Recipe) (report : ω → Except String Unit) :
    {α : Type} → Script ω α → Stage × Journal → α × (Stage × Journal)
  | _, .done a, s => (a, s)
  | _, .statement c next, s =>
    let ((outcome, _), s) := watchedStatement (ω := ω) r c none s
    watched r report (next (outcome.mapError Failure.message)) s
  | _, .blockStatement c block next, s =>
    let ((outcome, w), s) :=
      watchedStatement r c (some (watchedBlock report (watched r report block))) s
    watched r report (next (outcome.mapError Failure.message) w) s

theorem watched_plays (r : Registry Recipe) (report : ω → Except String Unit) :
    Plays (fun c block => watchedStatement r c (block.map (watchedBlock report))) (watched r report) :=
  ⟨fun _ _ => rfl, fun _ _ _ => rfl, fun _ _ _ _ => rfl⟩

/-! ### The journal changes nothing -/

/-- A journal stands beside what is changed without one. -/
abbrev Beside {β : Type} (p : β) (q : β × Journal) : Prop := p = q.1

theorem blockAction_unwatched (report : ω → Except String Unit) {play : Stage → ω × Stage}
    {play' : Stage × Journal → ω × (Stage × Journal)} (h : Simulates Beside play play') :
    Nested.Agrees Beside (blockAction report play) (watchedBlock report play') := by
  rintro site ⟨cell, w⟩ ⟨p, j⟩ rfl
  obtain ⟨result, stage⟩ :=
    h ⟨site.machine, cell.put site.build⟩ (⟨site.machine, cell.put site.build⟩, j.overwrite cell) rfl
  constructor
  · exact congrArg (fun w => (report w).mapError Failure.block) result
  · exact congrArg (fun s : Stage => (⟨s.cell.take.1, s.machine⟩ : Site)) stage
  · exact congrArg₂ (fun (s : Stage) w => (s.cell.take.2, some w)) stage result

theorem makeStatement_unwatched {block : Option (Nested (Progress ω) Unit)}
    {block' : Option (Nested (Progress ω × Journal) Unit)} (h : Option.Rel (Nested.Agrees Beside) block block')
    (r : Registry Recipe) (c : Command) :
    Simulates Beside (makeStatement r c block) (watchedStatement r c block') := by
  rintro s ⟨_, j⟩ rfl
  have same := (Registry.dispatch_agrees h r c ⟨s.cell.take.1, s.machine⟩ (s.cell.take.2, none)
    ((s.cell.take.2, none), j) rfl).eq_map
  exact ⟨congrArg (fun e => (e.1, e.2.2.2)) same, congrArg (fun e : _ × Site × Progress ω =>
    (⟨e.2.1.machine, (e.2.2.1.put e.2.1.build).note e.1⟩ : Stage)) same⟩

theorem run_unwatched (r : Registry Recipe) (report : ω → Except String Unit) (script : Script ω α) :
    Simulates Beside (run r report script) (watched r report script) := by
  refine (run_plays r report).simulates (watched_plays r report) (fun c block block' h => ?_) script
  exact makeStatement_unwatched (rel_map h (blockAction_unwatched report)) r c

/-! ### The cell does not matter -/

@[simp] theorem Cell.note_build (c : Cell) (r : Except Failure Unit) : (c.note r).build = c.build := by
  unfold Cell.note
  split <;> rfl

/-- What a run has noted so far stands beside the statements that have finished: `failure` is the one known
before, or else the first among them, and only stand-ins were overwritten. -/
structure Kept (known failure : Option Failure) (j : Journal) (l : List Finished) : Prop where
  failure : failure = known.or (firstFailure l)
  finished : j.finished = l
  overwritten : ∀ b ∈ j.overwritten, b = standIn

namespace Kept

variable {known failure : Option Failure} {j : Journal} {l : List Finished}

theorem start (known : Option Failure) : Kept known known .empty [] :=
  ⟨by cases known <;> rfl, rfl, by simp [Journal.empty]⟩

theorem overwrite (h : Kept known failure j l) {c : Cell} (hc : c.build = standIn) :
    Kept known failure (j.overwrite c) l := by
  refine ⟨h.failure, h.finished, fun b hb => ?_⟩
  rcases List.mem_append.mp hb with hb | hb
  · exact h.overwritten b hb
  · rw [List.mem_singleton.mp hb, hc]

theorem finish {c : Cell} (h : Kept known c.failure j l) (f : Finished) :
    Kept known (c.note f.outcome).failure (j.finish f) (l ++ [f]) := by
  refine ⟨?_, by rw [← h.finished]; rfl, h.overwritten⟩
  rw [firstFailure_concat, ← Option.or_assoc, ← h.failure]
  unfold Cell.note Finished.failure?
  cases hf : c.failure <;> cases f.outcome <;> simp [hf]

end Kept

/-- The build is in the cell. -/
structure AtHome (known : Option Failure) (s : Stage × Journal) (a : Account) : Prop where
  site : s.1.site = a.1
  kept : Kept known s.1.failure s.2 a.2

/-- The build is out of the cell, and an untouched stand-in lies there. -/
structure Out (known : Option Failure) (p : Progress ω × Journal) (q : List Finished × Option ω) : Prop where
  idle : p.1.1.build = standIn
  kept : Kept known p.1.1.failure p.2 q.1
  ending : p.1.2 = q.2

section

variable {known : Option Failure}

/-- A block moves the build from the recipe to the cell and back. -/
theorem watchedBlock_agrees (report : ω → Except String Unit)
    {play : Stage × Journal → ω × (Stage × Journal)} {play' : Account → ω × Account}
    (h : Simulates (AtHome known) play play') :
    Nested.Agrees (Out known) (watchedBlock report play) (directBlock report play') := by
  rintro site ⟨⟨cell, w⟩, j⟩ ⟨l, w'⟩ out
  obtain ⟨result, home⟩ := h (⟨site.machine, cell.put site.build⟩, j.overwrite cell) (site, l)
    ⟨rfl, out.kept.overwrite out.idle⟩
  exact ⟨congrArg (fun w => (report w).mapError Failure.block) result, home.site,
    ⟨rfl, home.kept, congrArg some result⟩⟩

/-- Once the build is back in the cell, the statement is noted on both sides. -/
theorem watchedEnd_atHome {x : Except Failure Unit × Site × Progress ω × Journal}
    {y : Except Failure Unit × Site × List Finished × Option ω} (h : SameEnd (Out known) x y) (c : Command)
    (before : Build) : (watchedEnd c before x).1 = (directEnd c before y).1 ∧
      AtHome known (watchedEnd c before x).2 (directEnd c before y).2 := by
  obtain ⟨o, site, ⟨cell, w⟩, j⟩ := x
  obtain ⟨o', site', l, w'⟩ := y
  obtain ⟨rfl, rfl, idle, kept, rfl⟩ := h
  have noted := (kept.overwrite idle).finish (c := cell.put site.build)
    ⟨c, before, site.build, o, w.isSome⟩
  exact ⟨rfl, by simp [watchedEnd, directEnd, Stage.site, Cell.put], noted⟩

/-- A statement moves the build from the cell to the recipe and back. -/
theorem watchedStatement_follows {block : Option (Nested (Progress ω × Journal) Unit)}
    {block' : Option (Nested (List Finished × Option ω) Unit)}
    (h : Option.Rel (Nested.Agrees (Out known)) block block') (r : Registry Recipe) (c : Command) :
    Simulates (AtHome known) (watchedStatement r c block) (directStatement r c block') := by
  rintro ⟨stage, j⟩ ⟨site, l⟩ ⟨hsite, kept⟩
  obtain rfl : stage.site = site := hsite
  exact watchedEnd_atHome (Registry.dispatch_agrees h r c stage.site _ _ ⟨rfl, kept, rfl⟩) c _

end

/-- With the build in the cell at first, a script gives the same without the cell, and the build is in the cell
again. -/
theorem watched_follows (known : Option Failure) (r : Registry Recipe) (report : ω → Except String Unit)
    (script : Script ω α) :
    Simulates (AtHome known) (watched r report script) (direct r report script) := by
  refine (watched_plays r report).simulates (direct_plays r report) (fun c block block' h => ?_) script
  exact watchedStatement_follows (rel_map h (watchedBlock_agrees report)) r c

/-- The journal at the end of a script. -/
theorem watched_atHome (r : Registry Recipe) (report : ω → Except String Unit) (script : Script ω α)
    (s : Stage) : AtHome s.failure (watched r report script (s, .empty)).2
      (direct r report script (s.site, [])).2 :=
  (watched_follows s.failure r report script (s, .empty) (s.site, []) ⟨rfl, .start s.failure⟩).2

/-- A script on a stage and the same script on the site alone. -/
theorem run_direct (r : Registry Recipe) (report : ω → Except String Unit) (script : Script ω α)
    (s : Stage) : (run r report script s).1 = (direct r report script (s.site, [])).1 ∧
      (run r report script s).2.site = (direct r report script (s.site, [])).2.1 ∧
      (run r report script s).2.failure =
        s.failure.or (firstFailure (direct r report script (s.site, [])).2.2) := by
  obtain ⟨result, stage⟩ := run_unwatched r report script s (s, .empty) rfl
  obtain ⟨same, home⟩ := watched_follows s.failure r report script (s, .empty) (s.site, [])
    ⟨rfl, .start s.failure⟩
  rw [result, stage]
  exact ⟨same, home.site, home.kept.failure⟩

/-- The main statement. The scripts are all that a program or a tree of statements can ask for: what comes
after a statement, caught or not, is up to `next`. -/
theorem run_eq_direct (r : Registry Recipe) (report : ω → Except String Unit) (script : Script ω α) (s : Stage) :
    let (result, stage) := run r report script s
    let (result', (site, finished)) := direct r report script (s.site, [])
    let (result'', (stage', journal)) := watched r report script (s, .empty)
    (result = result' ∧ stage.site = site ∧ stage.failure = s.failure.or (firstFailure finished)) ∧
      (result'' = result ∧ stage' = stage) ∧
      journal.finished = finished ∧ ∀ b ∈ journal.overwritten, b = standIn := by
  obtain ⟨result, stage⟩ := run_unwatched r report script s (s, .empty) rfl
  have home := watched_atHome r report script s
  exact ⟨run_direct r report script s, ⟨result.symm, stage.symm⟩, home.kept.finished,
    home.kept.overwritten⟩

end Provisioning.Config.Script
