import Provisioning.Proofs.TwoHosts.Operation
import Provisioning.Proofs.Writing.Script

/-! A script on two hosts, and the main statement on caches: what the cache of a host holds decides about
downloads and about nothing else. -/

namespace Provisioning.Config.Script

variable {ω α β : Type} {cache : Cache.Root} {m m' : Host.Machine}

/-- No statement that the script can make syncs a folder. -/
def Undisturbed : {α : Type} → Script ω α → Prop
  | _, .done _ => True
  | _, .statement c next => ¬c.SyncsFolder ∧ ∀ r, (next r).Undisturbed
  | _, .blockStatement c block next =>
    ¬c.SyncsFolder ∧ block.Undisturbed ∧ ∀ r w, (next r w).Undisturbed

/-- The same statement in two runs. -/
structure Finished.Twin (f f' : Finished) : Prop where
  command : f'.command = f.command
  before : f.before.Twin f'.before
  after : f.after.Twin f'.after
  outcome : f.outcome = f'.outcome
  nested : f'.nested = f.nested

/-- From twin sites the play comes to the same on two hosts. -/
def PlayTwins (cache : Cache.Root) (m m' : Host.Machine) (ws : Site → List Writing)
    (play : Account → α × Account) : Prop :=
  ∀ a a' : Account, a.1.Twin cache m m' a'.1 → List.Forall₂ Finished.Twin a.2 a'.2 →
    (play a).1 = (play a').1 ∧ (play a).2.1.Twin cache m m' (play a').2.1 ∧
      List.Forall₂ Finished.Twin (play a).2.2 (play a').2.2 ∧
      Writing.Thins (cache.Fuller m m') (ws a.1) (ws a'.1)

/-- What stands beside the site while a statement is made. -/
abbrev Beneath (p q : List Finished × Option ω) : Prop := List.Forall₂ Finished.Twin p.1 q.1 ∧ p.2 = q.2

theorem directBlock_twins (report : ω → Except String Unit) {ws : Site → List Writing}
    {play : Account → ω × Account} (h : PlayTwins cache m m' ws play) :
    (directBlock report play).Twins cache m m' Beneath id ws := by
  rintro s s' ⟨l, w⟩ ⟨l', w'⟩ twin ⟨related, -⟩
  obtain ⟨result, site, finished, thins⟩ := h (s, l) (s', l') twin related
  have outcome := congrArg (fun w => ((report w).mapError Failure.block).map id) result
  exact ⟨⟨outcome, site, thins⟩, finished, congrArg some result⟩

theorem directStatement_twins (report : ω → Except String Unit) {ws : Option (Site → List Writing)}
    {block : Option (Account → ω × Account)} (h : Option.Rel (PlayTwins cache m m') ws block) {c : Command}
    (other : ¬c.SyncsFolder) : PlayTwins cache m m' (Recipe.shipped.writings c ws)
      (directStatement Recipe.shipped c (block.map (directBlock report))) := by
  intro a a' twin related
  have blocks : Option.Rel (Nested.Twins cache m m' Beneath id) ws (block.map (directBlock report)) := by
    cases h with
    | some h => exact .some (directBlock_twins report h)
    | none => exact .none
  obtain ⟨ends, finished, ending⟩ :=
    Nested.Twins.dispatch other blocks a.1 a'.1 (a.2, none) (a'.2, none) twin ⟨related, rfl⟩
  have same := ends.same
  obtain ⟨-, site, thins⟩ := ends
  unfold directStatement
  generalize (Recipe.shipped.dispatch c (block.map (directBlock report))).runOn (a.1, (a.2, none)) = x at *
  generalize (Recipe.shipped.dispatch c (block.map (directBlock report))).runOn (a'.1, (a'.2, none)) = x' at *
  obtain ⟨o, t, l, w⟩ := x
  obtain ⟨o', t', l', w'⟩ := x'
  obtain rfl : o = o' := same
  obtain rfl : w = w' := ending
  have recorded : List.Forall₂ Finished.Twin (l ++ [⟨c, a.1.build, t.build, o, w.isSome⟩])
      (l' ++ [⟨c, a'.1.build, t'.build, o, w.isSome⟩]) :=
    List.rel_append finished (.cons ⟨rfl, twin.build, site.build, rfl, rfl⟩ .nil)
  exact ⟨rfl, site, recorded, thins⟩

theorem PlayTwins.andThen {ws : Site → List Writing} {make : Account → β × Account}
    {ws' : β → Site → List Writing} {play : β → Account → α × Account} (first : PlayTwins cache m m' ws make)
    (agrees : Simulates SameSite make make) (later : ∀ x, PlayTwins cache m m' (ws' x) (play x)) :
    PlayTwins cache m m' (fun s => ws s ++ ws' (make (s, [])).1 (make (s, [])).2.1)
      fun a => play (make a).1 (make a).2 := by
  intro a a' twin related
  obtain ⟨result, site, finished, thins⟩ := first a a' twin related
  obtain ⟨same, place⟩ := agrees a (a.1, []) rfl
  obtain ⟨same', place'⟩ := agrees a' (a'.1, []) rfl
  dsimp only
  rw [← same, ← place, ← same', ← place', ← result]
  obtain ⟨result', site', finished', thins'⟩ := later (make a).1 _ _ site finished
  exact ⟨result', site', finished', thins.append thins'⟩

theorem direct_twins (report : ω → Except String Unit) (script : Script ω α) (h : script.Undisturbed) :
    PlayTwins cache m m' (writings Recipe.shipped report script) (direct Recipe.shipped report script) := by
  induction script with
  | done x => exact fun a a' twin related => ⟨rfl, twin, related, .refl _⟩
  | statement c next ih =>
    obtain ⟨other, rest⟩ := h
    have alone : Option.Rel (PlayTwins cache m m') none (none : Option (Account → ω × Account)) := .none
    have first := directStatement_twins report alone other
    have agrees := directStatement_agrees (ω := ω) report .none Recipe.shipped c
    exact first.andThen agrees fun x => ih (x.1.mapError Failure.message) (rest _)
  | blockStatement c block next ihBlock ih =>
    obtain ⟨other, inner, rest⟩ := h
    have first := directStatement_twins report (.some (ihBlock inner)) other
    have agrees := directStatement_agrees report (.some (direct_agrees Recipe.shipped report block))
      Recipe.shipped c
    exact first.andThen agrees fun x => ih (x.1.mapError Failure.message) x.2 (rest _ _)

theorem firstFailure_congr {l l' : List Finished} (h : List.Forall₂ Finished.Twin l l') :
    firstFailure l = firstFailure l' := by
  induction h with
  | nil => rfl
  | cons twin _ ih => rw [firstFailure_cons, firstFailure_cons, ih, Finished.failure?, Finished.failure?, twin.outcome]

end Provisioning.Config.Script

namespace Provisioning

open Config.Script

/-- Two runs from the build `b` that wrote `ws` and `ws'`: their sessions are the same without the downloads, and
the second is part of the first if the second host's cache is the fuller one. -/
structure ThinRuns (b : Build) (m m' : Host.Machine) (s s' : Site) (ws ws' : List Writing) : Prop where
  twin : s.Twin b.cache m m' s'
  first : b.Writes ws s.build
  second : b.Writes ws' s'.build
  lasting : ws.filter Writing.lasts = ws'.filter Writing.lasts
  fewer : b.cache.Fuller m m' → s'.build.session.directives.Sublist s.build.session.directives

theorem Writing.Thins.runs {b : Build} {m m' : Host.Machine} {s s' : Site} {ws ws' : List Writing}
    (h : Thins (b.cache.Fuller m m') ws ws') (twin : s.Twin b.cache m m' s') (first : b.Writes ws s.build)
    (second : b.Writes ws' s'.build) : ThinRuns b m m' s s' ws ws' := by
  refine ⟨twin, first, second, h.lasting, fun fuller => ?_⟩
  rw [first.session, second.session]
  exact .append (.refl _) ((h.fewer fuller).map _)

/-- What the caches of two hosts hold decides about downloads and about nothing else. -/
theorem cache_decides_downloads (b : Build) (m m' : Host.Machine) :
    (∀ ops : List Operation, Operation.BlockUndisturbed ops →
      Trace.Twin b.cache m m' (Operation.trace ops ⟨b, m⟩) (Operation.trace ops ⟨b, m'⟩) ∧
        ThinRuns b m m' (Operation.performEach ops ⟨b, m⟩).2 (Operation.performEach ops ⟨b, m'⟩).2
          (Operation.allWritings ops ⟨b, m⟩) (Operation.allWritings ops ⟨b, m'⟩)) ∧
      ∀ {ω α : Type} (report : ω → Except String Unit) (script : Config.Script ω α) (known : Option Failure),
        script.Undisturbed →
          let (result, stage) := run Recipe.shipped report script ⟨m, ⟨b, known⟩⟩
          let (result', stage') := run Recipe.shipped report script ⟨m', ⟨b, known⟩⟩
          let (_, _, journal) := watched Recipe.shipped report script (⟨m, ⟨b, known⟩⟩, .empty)
          let (_, _, journal') := watched Recipe.shipped report script (⟨m', ⟨b, known⟩⟩, .empty)
          result = result' ∧ stage.failure = stage'.failure ∧
            List.Forall₂ Finished.Twin journal.finished journal'.finished ∧
            ThinRuns b m m' stage.site stage'.site (writings Recipe.shipped report script ⟨b, m⟩)
              (writings Recipe.shipped report script ⟨b, m'⟩) := by
  have start : Site.Twin b.cache m m' ⟨b, m⟩ ⟨b, m'⟩ := ⟨rfl, rfl, rfl, .refl b⟩
  constructor
  · intro ops undisturbed
    obtain ⟨records, site, thins⟩ := Operation.performEach_twins ops undisturbed start
    exact ⟨records, thins.runs site (Operation.performEach_writes ops ⟨b, m⟩)
      (Operation.performEach_writes ops ⟨b, m'⟩)⟩
  · intro ω α report script known undisturbed
    obtain ⟨result, site, finished, thins⟩ :=
      direct_twins report script undisturbed (⟨b, m⟩, []) (⟨b, m'⟩, []) start .nil
    have first := run_direct Recipe.shipped report script ⟨m, ⟨b, known⟩⟩
    have second := run_direct Recipe.shipped report script ⟨m', ⟨b, known⟩⟩
    have home := watched_atHome Recipe.shipped report script ⟨m, ⟨b, known⟩⟩
    have home' := watched_atHome Recipe.shipped report script ⟨m', ⟨b, known⟩⟩
    refine ⟨?_, ?_, ?_, ?_⟩
    · exact first.1.trans (result.trans second.1.symm)
    · rw [first.2.2, second.2.2]
      exact congrArg _ (firstFailure_congr finished)
    · rw [home.kept.finished, home'.kept.finished]
      exact finished
    · rw [first.2.1, second.2.1]
      exact thins.runs site (direct_writes Recipe.shipped report script (⟨b, m⟩, []))
        (direct_writes Recipe.shipped report script (⟨b, m'⟩, []))

/-- A block that fails after an installation, on a host without files and on one that holds the archive. -/
theorem cache_decides_downloads_block :
    let b : Build := .start .osx ⟨"/host", "/guest"⟩
    let m : Host.Machine := ⟨.empty, [], none⟩
    let m' := Operation.createFileOn ((b.cache.slot "u").hostFile "install.zip") m
    let ops : List Operation :=
      [.within "d" [.installZip "u", .fail "no"], .dispatch ⟨"Reboot", some "Vm", []⟩]
    ThinRuns b m m' (Operation.performEach ops ⟨b, m⟩).2 (Operation.performEach ops ⟨b, m'⟩).2
      (Operation.allWritings ops ⟨b, m⟩) (Operation.allWritings ops ⟨b, m'⟩) :=
  ((cache_decides_downloads (.start .osx ⟨"/host", "/guest"⟩) ⟨.empty, [], none⟩ _).1 _
    (by simp [Operation.BlockUndisturbed, Operation.Undisturbed, Command.SyncsFolder])).2

end Provisioning
