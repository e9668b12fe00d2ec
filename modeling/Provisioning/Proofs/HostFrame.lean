import Provisioning.Proofs.Evaluation
import Provisioning.Proofs.Host.Making
import Provisioning.Proofs.Recipe.Folders

/-! What runs leave of the host. Statements for synced folders make directories, named by leading parts of their paths,
and nothing else of the host changes, whatever fails. The main statement is for all scripts, for evaluations of scripts
of any language, and for single statements. -/

namespace Provisioning

open Config.Script
open Host (IsLeadingPart)
open Host.FileSystem (maxLinks maxName steps turn walk_cons walk_into)
open Host.Machine (expandTilde)

variable {α γ τ ω : Type}

/-! ### Frames -/

/-- A leading part of the path, a tilde expanded, of a folder whose guest path was free when its statement was made. -/
def FolderPart (home : Option String) (statements : List Finished) (part : String) : Prop :=
  ∃ f ∈ statements, ∃ host guest, f.command.Syncs host guest ∧ f.before.session.bindsGuest guest = false ∧
    IsLeadingPart part (expandTilde home host)

/-- What statements leave of a host: the directories that it gains are parts of paths of synced folders. The paths of
the folders that are synced exist, and the directives have them as they are written. -/
structure HostFrame (before : Host.Machine) (statements : List Finished) (after : Host.Machine) : Prop where
  tree : after.WellFormed
  gains : before.Gains (FolderPart before.home statements) after
  synced : ∀ f ∈ statements, f.outcome = .ok () → ∀ host guest, f.command.Syncs host guest →
    f.after.session = f.before.session.push (.syncedFolder host guest) ∧
      (expandTilde before.home host ≠ "" → after.pathExists (expandTilde before.home host) = true)

theorem FolderPart.mono {home : Option String} {l l' : List Finished} (sub : l ⊆ l') (part : String)
    (h : FolderPart home l part) : FolderPart home l' part := by
  obtain ⟨f, hf, folder⟩ := h
  exact ⟨f, sub hf, folder⟩

namespace HostFrame

variable {m m' m'' : Host.Machine} {l l' : List Finished} {f : Finished}

theorem start (tree : m.WellFormed) : HostFrame m [] m :=
  ⟨tree, .refl _ m, fun _ hf => absurd hf List.not_mem_nil⟩

theorem trans (h : HostFrame m l m') (h' : HostFrame m' l' m'') : HostFrame m (l ++ l') m'' := by
  have later := h'.gains
  have bound := h'.synced
  rw [h.gains.home] at later bound
  refine ⟨h'.tree, (h.gains.mono (FolderPart.mono (List.subset_append_left _ _))).trans
    (later.mono (FolderPart.mono (List.subset_append_right _ _))), fun f hf ok host guest syncs => ?_⟩
  rcases List.mem_append.mp hf with first | second
  · obtain ⟨session, found⟩ := h.synced f first ok host guest syncs
    exact ⟨session, fun full => h'.gains.pathExists_mono h.tree (found full)⟩
  · exact bound f second ok host guest syncs

/-- A statement that is not for a synced folder, if it has left the host alone. -/
theorem quiet (tree : m.WellFormed) (other : ¬f.command.SyncsFolder) : HostFrame m [f] m := by
  refine ⟨tree, .refl _ m, fun g hg _ host guest syncs => ?_⟩
  rw [List.mem_singleton.mp hg] at syncs
  exact absurd syncs.1 other

/-- A statement that failed, maybe with some of its directories made. -/
theorem failed {e : Failure} (tree : m'.WellFormed) (gains : m.Gains (FolderPart m.home [f]) m')
    (outcome : f.outcome = .error e) : HostFrame m [f] m' := by
  refine ⟨tree, gains, fun g hg ok => ?_⟩
  rw [List.mem_singleton.mp hg, outcome] at ok
  cases ok

end HostFrame

/-! ### Recipes -/

theorem Step.ensureDirectory_frame {s : Site} (tree : s.machine.WellFormed) (path : String) :
    let (r, s') := (Step.ensureDirectory path).perform s
    let full := expandTilde s.machine.home path
    s'.machine.WellFormed ∧ s.machine.Gains (IsLeadingPart · full) s'.machine ∧
      (r = .ok () → full ≠ "" → s'.machine.pathExists full = true) := by
  dsimp only [Step.perform]
  split
  · next there => exact ⟨tree, .refl _ _, fun _ _ => there⟩
  · obtain ⟨tree', gains, found⟩ := tree.makeDirectories (expandTilde s.machine.home path)
    refine ⟨tree', gains, fun ok full => ?_⟩
    have made : (s.machine.makeDirectories (expandTilde s.machine.home path)).1 = .ok () := by
      revert ok
      cases (s.machine.makeDirectories (expandTilde s.machine.home path)).1 with
      | ok _ => exact fun _ => rfl
      | error e => nofun
    obtain ⟨loc, found⟩ := found made full
    rw [Host.Machine.pathExists, found]

theorem Provision.Alike.perform_machine {f : α → γ} {p q : Provision α} (h : p.Alike Step.Indoors f q) (s : Site) :
    (p.perform s).2.machine = s.machine := by
  induction h generalizing s with
  | done same => rfl
  | fail e => rfl
  | @step first indoors p q _ ih =>
    have same : (first.perform s).2.machine = s.machine := by
      cases first with
      | requireUnbound guest =>
        rw [Step.perform]
        split <;> rfl
      | ensureDirectory path => exact indoors.elim
      | _ => rfl
    rw [perform]
    rcases performed : first.perform s with ⟨e | _, s'⟩ <;> rw [performed] at same
    · exact same
    · exact (ih s').trans same
  | request url file _ ih => exact ih _ _ .present _

/-- The recipe for synced folders. -/
theorem Recipe.syncedFolder_frame {s : Site} (tree : s.machine.WellFormed) {c : Command} (syncs : c.SyncsFolder)
    (nested : Bool) :
    let (r, s') := (syncedFolder c.arguments).perform s
    HostFrame s.machine [⟨c, s.build, s'.build, r, nested⟩] s'.machine := by
  obtain ⟨e, failed, none⟩ | ⟨host, guest, folder, steps⟩ := syncedFolder_folder c.arguments
  · rw [failed]
    exact .failed tree (.refl _ _) rfl
  · rw [steps, Provision.perform]
    cases bound : s.build.session.bindsGuest guest with
    | true =>
      have refused : (Step.requireUnbound guest).perform s = (.error (.boundGuest guest), s) := if_pos bound
      rw [refused]
      exact .failed tree (.refl _ _) rfl
    | false =>
      have passed : (Step.requireUnbound guest).perform s = (.ok (), s) := if_neg (by simp [bound])
      have build := Evaluation.ensureDirectory_build host s
      have made := Step.ensureDirectory_frame tree host
      rw [passed]
      dsimp only
      rw [Provision.perform]
      rcases performed : (Step.ensureDirectory host).perform s with ⟨e | _, s'⟩ <;> rw [performed] at build made
      all_goals
        obtain ⟨tree', gains, found⟩ := made
        have named (after : Build) (r : Except Failure Unit) : s.machine.Gains
            (FolderPart s.machine.home [⟨c, s.build, after, r, nested⟩]) s'.machine := gains.mono fun part leads =>
          ⟨_, List.mem_singleton_self _, host, guest, ⟨syncs, folder⟩, bound, leads⟩
      · exact .failed tree' (named _ _) rfl
      · refine ⟨tree', named _ _, fun g hg _ host' guest' syncs' => ?_⟩
        rw [List.mem_singleton.mp hg] at syncs' ⊢
        obtain ⟨rfl, rfl⟩ := folder.unique syncs'.2
        exact ⟨congrArg (fun b : Build => b.session.push _) build, found rfl⟩

/-! ### Runs -/

namespace Config.Script

/-- What the statements that have finished leave of the host `m`. -/
def Framed (m : Host.Machine) (a : Account) : Prop := HostFrame m a.2 a.1.machine

variable {m : Host.Machine}

theorem directStatement_framed (report : ω → Except String Unit) {block : Option (Account → ω × Account)}
    (h : ∀ play ∈ block, Keeps (Framed m) play) (c : Command) :
    Keeps (Framed m) (directStatement Recipe.shipped c (block.map (directBlock report))) := by
  intro a held
  rw [directStatement, Registry.dispatch_runOn]
  by_cases syncs : c.SyncsFolder
  · rw [Registry.course_of_syncsFolder syncs]
    exact HostFrame.trans held (Recipe.syncedFolder_frame held.tree syncs false)
  · cases course : Recipe.shipped.course c a.1.build.platform (block.map (directBlock report)).isSome with
    | refused e => exact HostFrame.trans held (.quiet held.tree syncs)
    | steps p =>
      have same := (Registry.shipped_course_indoors syncs course).perform_machine a.1
      have stays : HostFrame m a.2 (p.perform a.1).2.machine := same ▸ held
      exact stays.trans (.quiet stays.tree syncs)
    | inside directory =>
      cases block with
      | none => exact HostFrame.trans held (.quiet held.tree syncs)
      | some play =>
        -- The directory is one of the guest, so the block starts on the same host.
        have inner : Framed m (play (a.1.enter directory, a.2)).2 := h play rfl (a.1.enter directory, a.2) held
        exact HostFrame.trans inner (.quiet inner.tree syncs)

theorem direct_framed (report : ω → Except String Unit) (script : Config.Script ω α) :
    Keeps (Framed m) (direct Recipe.shipped report script) :=
  (direct_plays Recipe.shipped report).keeps (fun c _ h => directStatement_framed report h c) script

end Config.Script

namespace Evaluation

variable {o : Options} {directory : String} {m : Host.Machine}

theorem start_frame (tree : m.WellFormed) :
    HostFrame m [firstFinished o directory m] (start o directory m).2.machine := by
  have syncs : (bindCache (o.cacheRoot directory)).SyncsFolder := ⟨rfl, rfl⟩
  rw [firstFinished, start_eq]
  have home : Host.Machine.WellFormed (Site.mk (.start o.platform (o.cacheRoot directory)) m).machine := tree
  exact Recipe.syncedFolder_frame home syncs false

theorem finish_frame (tree : m.WellFormed) {site : Site} (here : site.machine = m) (L : Language)
    (script : L.Script) : HostFrame m (finishedIn L script site) (finish L script site).2 := by
  have ran : (finish L script site).2 = (direct Recipe.shipped L.report script (site, [])).2.1.machine :=
    congrArg Site.machine (run_direct Recipe.shipped L.report script (.start site)).2.1
  rw [finishedIn_direct, ran]
  subst here
  exact direct_framed L.report script (site, []) (.start tree)

/-- An evaluation leaves of the host what its statements do, the first one and those of the script. -/
theorem run_frame (L : Language) (o : Options) (directory : String)
    (load : Host.Machine → Except EvaluationError L.Script) (tree : m.WellFormed) :
    HostFrame m (finished L o directory load m) (run L o directory load m).2 := by
  have first : HostFrame m [firstFinished o directory m] (start o directory m).2.machine := start_frame tree
  rw [run_eq]
  unfold finished
  rcases started : start o directory m with ⟨e | _, site⟩ <;> rw [started] at first
  · exact first
  · dsimp only at first ⊢
    cases load site.machine with
    | error e => exact first
    | ok script => exact first.trans (finish_frame first.tree rfl L script)

end Evaluation

/-- The main statement. Statements change nothing of a host but for new directories, which hold no files. Leading parts
of the paths of folders name these, and only of folders whose statements had their arguments accepted and their guest
paths found free. The path of a folder that is synced exists as soon as its statement is made, and at the end of the
run, while the directive has it as it is written. -/
theorem run_gains_folders (report : ω → Except String Unit) (script : Config.Script ω α) (stage : Stage)
    (tree : stage.machine.WellFormed) :
    let before := stage.machine
    let after := (run Recipe.shipped report script stage).2.machine
    (HostFrame before (watched Recipe.shipped report script (stage, .empty)).2.2.finished after ∧
      (∀ loc content, after.files.entry? loc = some (.file content) ↔
        before.files.entry? loc = some (.file content)) ∧
      ∀ loc, before.files.entry? loc = none → ∀ below e, after.files.entry? (loc ++ below) = some e →
        e = .directory) ∧
      (∀ (c : Command) (block : Option (Nested τ Unit)) (s s' : Site) (t t' : τ), s.machine.WellFormed →
        ∀ host guest, c.Syncs host guest →
          (Recipe.shipped.dispatch c block).runOn (s, t) = (.ok (), (s', t')) →
          s'.build.session = s.build.session.push (.syncedFolder host guest) ∧
            (expandTilde s.machine.home host ≠ "" →
              s'.machine.pathExists (expandTilde s.machine.home host) = true)) ∧
      ∀ (L : Evaluation.Language) (o : Options) (directory : String)
        (load : Host.Machine → Except EvaluationError L.Script),
        HostFrame before (Evaluation.finished L o directory load before) (Evaluation.run L o directory load before).2 := by
  intro before after
  have home := watched_atHome Recipe.shipped report script stage
  have site := (run_direct Recipe.shipped report script stage).2.1
  have frame : HostFrame before (watched Recipe.shipped report script (stage, .empty)).2.2.finished after := by
    have ran : after = (direct Recipe.shipped report script (stage.site, [])).2.1.machine := congrArg Site.machine site
    rw [ran, home.kept.finished]
    exact direct_framed report script (stage.site, []) (.start tree)
  refine ⟨⟨frame, fun loc content => frame.gains.file_iff, fun loc none below e found => ?_⟩, ?_, ?_⟩
  · exact frame.gains.directory_below tree.files none found
  · intro c block s s' t t' tree' host guest syncs ok
    rw [Registry.dispatch_runOn, Registry.course_of_syncsFolder syncs.1, Course.follow, Nested.runOn_ofProvision] at ok
    obtain ⟨outcome, rest⟩ := Prod.mk.inj ok
    obtain ⟨rfl, -⟩ := Prod.mk.inj rest
    have made := Recipe.syncedFolder_frame tree' syncs.1 false
    exact made.synced _ (List.mem_singleton_self _) outcome host guest syncs
  · exact fun L o directory load => Evaluation.run_frame L o directory load tree

/-- A folder at a home directory that is not there yet. -/
theorem run_gains_folders_home :
    let m : Host.Machine := ⟨⟨[(["notes"], .file [104, 105])]⟩, [], some "/h"⟩
    let site : Site := ⟨.start .linux ⟨"/cache", "/cache"⟩, m⟩
    let c : Command :=
      ⟨"Setup", some "SyncedFolder", [.ofFields [("host", .string "~"), ("guest", .string "/data")]]⟩
    let script : Config.Script (Except String Unit) Unit := .statement c fun _ => .done ()
    let after := (run Recipe.shipped id script (.start site)).2.machine
    m.WellFormed ∧ after.pathExists "/h/" = true ∧ after.files.entry? ["notes"] = some (.file [104, 105]) := by
  intro m site c script after
  have tree : m.WellFormed := by decide
  obtain ⟨⟨frame, files, -⟩, -⟩ := run_gains_folders (τ := Unit) id script (.start site) tree
  have expanded : expandTilde m.home "~" = "/h/" := by decide
  have short : "h".utf8ByteSize ≤ maxName := by decide
  have missing : m.pathExists "/h/" = false := by
    have isPath : Host.IsPath "/h/" := ⟨by decide, by decide, by decide⟩
    have asked : steps "/h/" = [.into "h", .stay] := by decide
    have went : m.files.walk true maxLinks (m.origin "/h/") [.into "h", .stay] = .error .notFound := by
      rw [walk_cons (.inr rfl), turn, if_neg (Nat.not_lt.mpr short)]
      rfl
    rw [Host.Machine.pathExists, Host.Machine.find, Host.Machine.locate_of_isPath isPath, asked, went]
  have made : m.makeDirectories "/h/" = (.ok (), { m with files := m.files.put ["h"] .directory }) := by
    have list : Host.Machine.ancestors "/h/" = ["/h/", "/"] := by decide
    have asked : steps (Host.Machine.withoutEndSlashes "/h/") = [.into "h"] := by decide
    have checked : Host.Machine.checkLength "/h/" = .ok () := by decide
    have led : m.lead false "/h/" [.into "h"] = .ok ⟨["h"], none⟩ := by
      rw [Host.Machine.lead, if_neg (by decide), if_neg (by decide)]
      exact walk_into short (by simp)
    rw [Host.Machine.makeDirectories, list, Host.Machine.makeAll, Host.Machine.makeDirectory, asked, checked, led]
    rfl
  have outcome : ((Recipe.syncedFolder c.arguments).perform site).1 = .ok () := by
    have ensured : (Step.ensureDirectory "~").perform site =
        (.ok (), { site with machine := { m with files := m.files.put ["h"] .directory } }) := by
      rw [Step.perform, expanded]
      dsimp only
      rw [missing, made]
      rfl
    have recipe : Recipe.syncedFolder c.arguments = .step (.requireUnbound "/data") (.step (.ensureDirectory "~")
        (.step (.add (.syncedFolder "~" "/data")) (.done ()))) := rfl
    have free : (Step.requireUnbound "/data").perform site = (.ok (), site) := rfl
    rw [recipe, Provision.perform, free]
    dsimp only
    rw [Provision.perform, ensured]
    rfl
  have synced := frame.synced _ (List.mem_singleton_self _) outcome "~" "/data" ⟨⟨rfl, rfl⟩, _, rfl, rfl, rfl⟩
  exact ⟨tree, synced.2 (by decide), (files _ _).mpr rfl⟩

end Provisioning
