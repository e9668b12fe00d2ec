import Provisioning.Proofs.Evaluation
import Provisioning.Proofs.Recipe.Folders
import Provisioning.Proofs.Sites.Script
import Provisioning.Proofs.Writing.Script

/-! The folders that a session syncs. The cache's folder comes first, and no guest path is bound twice: one recipe
alone adds synced folders, and it looks at the session before it does. -/

namespace Provisioning

variable {α γ : Type}

/-! ### Sessions -/

/-- The guest paths that are bound, in the order of their directives. -/
def Session.guests (s : Session) : List String := s.directives.filterMap Directive.syncedGuest?

theorem Session.eq_of_directives {s s' : Session} (h : s.directives = s'.directives) : s = s' := by
  cases s
  exact congrArg Session.mk h

theorem Session.bindsGuest_iff {s : Session} {guest : String} : s.bindsGuest guest = true ↔ guest ∈ s.guests :=
  List.contains_iff_mem

/-- The first directive binds the cache's folder, and the guest paths of all synced folders are different. -/
structure Session.CacheFirst (cache : Cache.Root) (s : Session) : Prop where
  first : s.directives.head? = some (.syncedFolder cache.host cache.guest)
  distinct : s.guests.Nodup

namespace Session.CacheFirst

variable {cache : Cache.Root} {s s' : Session}

theorem extend (h : s.CacheFirst cache) {more : List Directive} (eq : s'.directives = s.directives ++ more)
    (fresh : (s.guests ++ more.filterMap Directive.syncedGuest?).Nodup) : s'.CacheFirst cache := by
  refine ⟨?_, ?_⟩
  · rw [eq, List.head?_append, h.first, Option.some_or]
  · rw [guests, eq, List.filterMap_append]
    exact fresh

/-- Directives that sync nothing change nothing. -/
theorem unsynced (h : s.CacheFirst cache) {more : List Directive} (eq : s'.directives = s.directives ++ more)
    (none : ∀ d ∈ more, d.syncedGuest? = none) : s'.CacheFirst cache := by
  refine h.extend eq ?_
  rw [List.filterMap_eq_nil_iff.mpr none, List.append_nil]
  exact h.distinct

theorem push (h : s.CacheFirst cache) (host : String) {guest : String} (free : s.bindsGuest guest = false) :
    (s.push (.syncedFolder host guest)).CacheFirst cache := by
  have new : guest ∉ s.guests := fun bound => by simp [bindsGuest_iff.mpr bound] at free
  refine h.extend rfl (List.nodup_append.mpr ⟨h.distinct, by simp [Directive.syncedGuest?], ?_⟩)
  rintro g hg _ hguest rfl
  exact new (List.mem_singleton.mp hguest ▸ hg)

/-- What a later session has in addition binds no guest path that is bound before. -/
theorem added_free (h : s'.CacheFirst cache) (grown : s.directives <+: s'.directives) {d : Directive}
    (hd : d ∈ s'.directives.drop s.size) {guest : String} (binds : d.syncedGuest? = some guest) :
    s.bindsGuest guest = false := by
  rw [← Bool.not_eq_true, bindsGuest_iff]
  intro bound
  have split : s'.guests = s.guests ++ (s'.directives.drop s.size).filterMap Directive.syncedGuest? := by
    rw [guests, guests, ← List.filterMap_append, size, List.prefix_iff_eq_append.mp grown]
  have distinct := h.distinct
  rw [split, List.nodup_append] at distinct
  exact distinct.2.2 guest bound guest (List.mem_filterMap.mpr ⟨d, hd, binds⟩) rfl

end Session.CacheFirst

/-! ### Recipes -/

def Writing.Unsynced : Writing → Prop
  | .directive d => d.syncedGuest? = none
  | _ => True

theorem Build.Writes.cacheFirst {cache : Cache.Root} {b b' : Build} {ws : List Writing} (h : b.Writes ws b')
    (unsynced : ∀ w ∈ ws, w.Unsynced) (held : b.session.CacheFirst cache) : b'.session.CacheFirst cache := by
  refine held.unsynced h.session fun d hd => ?_
  obtain ⟨w, hw, rfl⟩ := List.mem_map.mp hd
  cases w with
  | directive d => exact unsynced _ hw
  | script scopes privileged code => rfl
  | download scopes url path => rfl

theorem Build.downloads_unsynced (b : Build) (m : Host.Machine) (url file : String) :
    ∀ w ∈ b.downloads m url file, w.Unsynced := by
  unfold downloads
  split <;> simp [Writing.Unsynced]

theorem Step.writings_unsynced {step : Step} (h : step.Unsynced) (s : Site) :
    ∀ w ∈ step.writings s, w.Unsynced := by
  cases step with
  | add d => exact List.forall_mem_singleton.mpr h
  | install i =>
    exact List.forall_mem_append.mpr ⟨s.build.downloads_unsynced _ _ _, List.forall_mem_singleton.mpr trivial⟩
  | run | runIn => exact List.forall_mem_singleton.mpr trivial
  | requireUnbound | ensureDirectory => exact nofun

def Site.CacheFirst (cache : Cache.Root) (s : Site) : Prop := s.build.session.CacheFirst cache

theorem Provision.Alike.sites_cacheFirst {cache : Cache.Root} {f : α → γ} {p q : Provision α}
    (h : p.Alike Step.Unsynced f q) {s : Site} (held : s.CacheFirst cache) :
    ∀ t ∈ p.sites s, t.CacheFirst cache := by
  induction h generalizing s with
  | done same => exact nofun
  | fail e => exact nofun
  | @step first unsynced p q _ ih =>
    have stepped := (first.perform_writes s).cacheFirst (first.writings_unsynced unsynced s) held
    rw [sites]
    rcases performed : first.perform s with ⟨e | _, s'⟩ <;> rw [performed] at stepped
    · exact List.forall_mem_singleton.mpr stepped
    · exact List.forall_mem_cons.mpr ⟨stepped, ih stepped⟩
  | request url file _ ih =>
    have fetched := (s.build.fetch_writes s.machine url file).cacheFirst (s.build.downloads_unsynced _ _ _) held
    exact List.forall_mem_cons.mpr ⟨fetched, ih _ _ .present fetched⟩

theorem Recipe.syncedFolder_sites {cache : Cache.Root} (a : Arguments) {s : Site} (held : s.CacheFirst cache) :
    ∀ t ∈ (syncedFolder a).sites s, t.CacheFirst cache := by
  obtain ⟨e, failed, -⟩ | ⟨host, guest, -, steps⟩ := syncedFolder_folder a
  · rw [failed]
    exact nofun
  · rw [steps, Provision.sites]
    cases bound : s.build.session.bindsGuest guest with
    | true =>
      have refused : (Step.requireUnbound guest).perform s = (.error (.boundGuest guest), s) := if_pos bound
      rw [refused]
      exact List.forall_mem_singleton.mpr held
    | false =>
      have passed : (Step.requireUnbound guest).perform s = (.ok (), s) := if_neg (by simp [bound])
      -- The directory is made on the host, so the guest path is still free after it.
      have build := Evaluation.ensureDirectory_build host s
      rw [passed]
      dsimp only
      rw [Provision.sites]
      rcases performed : (Step.ensureDirectory host).perform s with ⟨e | _, s'⟩ <;> rw [performed] at build
      all_goals have made : s'.CacheFirst cache := show s'.build.session.CacheFirst cache from build ▸ held
      · exact List.forall_mem_cons.mpr ⟨held, List.forall_mem_singleton.mpr made⟩
      · have free : s'.build.session.bindsGuest guest = false := build ▸ bound
        exact List.forall_mem_cons.mpr ⟨held, List.forall_mem_cons.mpr ⟨made,
          List.forall_mem_singleton.mpr (made.push host free)⟩⟩

/-- At every step of a shipped recipe the session is in order. -/
theorem Site.cacheFirst_maintained (cache : Cache.Root) : Recipe.shipped.Maintains (Site.CacheFirst cache) where
  steps course _ held := by
    rcases Registry.shipped_course course with alike | ⟨-, rfl⟩
    · exact (alike.mono fun _ steady => steady.2.2).sites_cacheFirst held
    · exact Recipe.syncedFolder_sites _ held
  enter _ held := held
  leaveTo _ held := held

/-! ### Evaluations -/

namespace Evaluation

open Config.Script

variable {L : Language} {o : Options} {directory : String} {load : Host.Machine → Except EvaluationError L.Script}
  {script : L.Script} {site : Site} {m : Host.Machine}

/-- The sites that an evaluation comes through, from the one with the cache's folder on. -/
def sites (L : Language) (o : Options) (directory : String)
    (load : Host.Machine → Except EvaluationError L.Script) (m : Host.Machine) : List Site :=
  match start o directory m with
  | (.error _, _) => []
  | (.ok (), site) =>
    site :: match load site.machine with
      | .error _ => []
      | .ok script => Config.Script.sites Recipe.shipped L.report script (site, [])

theorem start_cacheFirst (h : (start o directory m).1 = .ok ()) :
    (start o directory m).2.CacheFirst (o.cacheRoot directory) := by
  have directives := start_session h
  constructor
  · rw [directives]
    rfl
  · rw [Session.guests, directives]
    simp [Directive.syncedGuest?]

theorem sites_eq : sites L o directory load m = match (start o directory m).1 with
    | .error _ => []
    | .ok () => (start o directory m).2 :: match load (start o directory m).2.machine with
      | .error _ => []
      | .ok script => Config.Script.sites Recipe.shipped L.report script ((start o directory m).2, []) := by
  unfold sites
  rcases start o directory m with ⟨_ | _, site⟩ <;> rfl

theorem sites_cacheFirst : ∀ s ∈ sites L o directory load m, s.CacheFirst (o.cacheRoot directory) := by
  rw [sites_eq]
  cases started : (start o directory m).1 with
  | error e => exact nofun
  | ok u =>
    have first := start_cacheFirst started
    dsimp only
    cases load (start o directory m).2.machine with
    | error e => exact List.forall_mem_singleton.mpr first
    | ok script =>
      -- From the first site on the statements keep what has been established.
      have maintains := Site.cacheFirst_maintained (o.cacheRoot directory)
      exact sites_maintain maintains script ((start o directory m).2, []) first

/-- Either there is no script to run, or the evaluation goes on from its first site with one. -/
theorem sites_cases (L : Language) (o : Options) (directory : String)
    (load : Host.Machine → Except EvaluationError L.Script) (m : Host.Machine) :
    ((finished L o directory load m).tail = [] ∧ ∃ e, (run L o directory load m).1 = .error e) ∨
      ∃ script site,
        sites L o directory load m =
            site :: Config.Script.sites Recipe.shipped L.report script (site, []) ∧
          (finished L o directory load m).tail = finishedIn L script site ∧
          (run L o directory load m).1 = (finish L script site).1 := by
  obtain ⟨e, -, eq, result⟩ | ⟨started, ⟨e, -, eq, result⟩ | ⟨script, loaded, eq, result⟩⟩ :=
    run_cases L o directory load m
  · exact .inl ⟨by rw [eq, List.tail_cons], _, result⟩
  · exact .inl ⟨by rw [eq, List.tail_cons], e, result⟩
  · refine .inr ⟨script, (start o directory m).2, ?_, by rw [eq, List.tail_cons], result⟩
    rw [sites_eq, started, loaded]

theorem finishedIn_seen {f : Finished} (hf : f ∈ finishedIn L script site) :
    f.Seen (site :: Config.Script.sites Recipe.shipped L.report script (site, [])) := by
  rw [finishedIn_direct] at hf
  exact (direct_seen script (site, []) f hf).resolve_left List.not_mem_nil

theorem finishedIn_grows {f : Finished} (hf : f ∈ finishedIn L script site) :
    f.before.session.directives <+: f.after.session.directives := by
  rw [finishedIn_direct] at hf
  have restores : Keeps (AllRestore Recipe.shipped L.report) _ := direct_restores script
  obtain ⟨m, block, wrote⟩ := restores (site, []) (fun f hf => absurd hf List.not_mem_nil) f hf
  exact wrote.session_prefix

theorem finish_site {session : Session} (h : (finish L script site).1 = .ok session) :
    (direct Recipe.shipped L.report script (site, [])).2.1.build.session = session := by
  obtain ⟨-, -, added⟩ := finish_ok h
  have site' := (run_direct Recipe.shipped L.report script (.start site)).2.1
  have start : (Stage.start site).site = site := rfl
  rw [start] at site'
  exact Session.eq_of_directives (by rw [← site', run_session, ← added])

theorem start_mem_sites (h : (start o directory m).1 = .ok ()) :
    (start o directory m).2 ∈ sites L o directory load m := by
  rw [sites_eq, h]
  exact List.mem_cons_self

/-- In every state of an evaluation, of any language's scripts, the cache's folder comes first in the session and no
guest path is bound twice: what a statement adds binds paths that were free when it was made. The states begin where the
cache's folder has been bound. The statements that finish, inside of blocks or not, are made and left in such states,
and the session that is given is the session of one. -/
theorem cache_bound_once (L : Language) (o : Options) (directory : String)
    (load : Host.Machine → Except EvaluationError L.Script) (m : Host.Machine) :
    (∀ s ∈ sites L o directory load m, s.build.session.CacheFirst (o.cacheRoot directory)) ∧
      ((start o directory m).1 = .ok () → (start o directory m).2 ∈ sites L o directory load m) ∧
      (∀ f ∈ (finished L o directory load m).tail, f.Seen (sites L o directory load m) ∧
        ∀ d ∈ f.after.session.directives.drop f.before.session.size, ∀ guest, d.syncedGuest? = some guest →
          f.before.session.bindsGuest guest = false) ∧
      ∀ session, (run L o directory load m).1 = .ok session →
        ∃ s ∈ sites L o directory load m, s.build.session = session := by
  have inOrder : ∀ s ∈ sites L o directory load m, s.CacheFirst (o.cacheRoot directory) := sites_cacheFirst
  refine ⟨inOrder, start_mem_sites, ?_⟩
  obtain ⟨nothing, e, failed⟩ | ⟨script, site, eq, tail, result⟩ := sites_cases L o directory load m
  · rw [nothing, failed]
    exact ⟨fun f hf => absurd hf List.not_mem_nil, fun session given => by cases given⟩
  · refine ⟨fun f hf => ?_, fun session given => ?_⟩
    · rw [tail] at hf
      have seen := finishedIn_seen hf
      rw [← eq] at seen
      obtain ⟨-, t, ht, after⟩ := id seen
      -- No path comes twice in the session after the statement, and that session starts with the one before it.
      have held : f.after.session.CacheFirst (o.cacheRoot directory) := after ▸ inOrder t ht
      exact ⟨seen, fun d hd guest binds => held.added_free (finishedIn_grows hf) hd binds⟩
    · rw [result] at given
      rw [eq]
      exact ⟨(direct Recipe.shipped L.report script (site, [])).2.1, direct_mem_sites script (site, []),
        finish_site given⟩

end Evaluation

end Provisioning
