import Mathlib.Data.List.Forall2
import Provisioning.Proofs.Writing.Provision

/-! Two hosts. The same is run in the same build on two hosts, whose caches may hold different files. A request
may schedule a download on one host and not on the other, and nothing else comes of what the caches hold: the
answers are the same but for the status, and so is all that is written but for downloads. -/

namespace Provisioning

variable {τ α γ : Type}

/-! ### Writings without downloads -/

namespace Writing

/-- The writing does not depend on what a cache holds. -/
def lasts : Writing → Bool
  | .download .. => false
  | .directive _ | .script .. => true

/-- What is written on two hosts is the same but for downloads, and there are none on the second host that are
not on the first, provided that the second one is `fuller`. -/
structure Thins (fuller : Prop) (ws ws' : List Writing) : Prop where
  lasting : ws.filter lasts = ws'.filter lasts
  fewer : fuller → ws'.Sublist ws

namespace Thins

variable {fuller : Prop} {ws ws' vs vs' : List Writing}

theorem refl (ws : List Writing) : Thins fuller ws ws := ⟨rfl, fun _ => .refl ws⟩

theorem append (h : Thins fuller ws ws') (h' : Thins fuller vs vs') :
    Thins fuller (ws ++ vs) (ws' ++ vs') := by
  refine ⟨?_, fun holds => (h.fewer holds).append (h'.fewer holds)⟩
  rw [List.filter_append, List.filter_append, h.lasting, h'.lasting]

theorem inside (h : Thins fuller ws ws') (outer : List String) :
    Thins fuller (ws.map (·.inside outer)) (ws'.map (·.inside outer)) := by
  have kind : Writing.lasts ∘ (·.inside outer) = Writing.lasts := by
    funext w
    cases w <;> rfl
  refine ⟨?_, fun holds => (h.fewer holds).map _⟩
  rw [List.filter_map, List.filter_map, kind, h.lasting]

end Thins

end Writing

/-! ### Twins -/

/-- Two builds whose sessions differ in downloads at most. -/
structure Build.Twin (b b' : Build) : Prop where
  platform : b'.platform = b.platform
  cache : b'.cache = b.cache
  directories : b'.directories = b.directories
  requested : b'.requested = b.requested
  synced : b'.session.directives.filterMap Directive.syncedGuest? =
    b.session.directives.filterMap Directive.syncedGuest?

namespace Build.Twin

variable {b b' : Build}

theorem refl (b : Build) : b.Twin b := ⟨rfl, rfl, rfl, rfl, rfl⟩

theorem add (h : b.Twin b') (d : Directive) : (b.add d).Twin (b'.add d) := by
  refine ⟨h.platform, h.cache, h.directories, h.requested, ?_⟩
  simp only [Build.add, Session.push, List.filterMap_append, h.synced]

/-- Fragments bind no guest path. -/
theorem addLeft (h : b.Twin b') (f : Fragment) : (b.add (.shell f)).Twin b' := by
  refine ⟨h.platform, h.cache, h.directories, h.requested, ?_⟩
  simp [Build.add, Session.push, Directive.syncedGuest?, h.synced]

theorem addRight (h : b.Twin b') (f : Fragment) : b.Twin (b'.add (.shell f)) := by
  refine ⟨h.platform, h.cache, h.directories, h.requested, ?_⟩
  simp [Build.add, Session.push, Directive.syncedGuest?, h.synced]

theorem enter (h : b.Twin b') (directory : String) : (b.enter directory).Twin (b'.enter directory) :=
  ⟨h.platform, h.cache, congrArg (directory :: ·) h.directories, h.requested, h.synced⟩

theorem leaveTo (h : b.Twin b') (depth : Nat) : (b.leaveTo depth).Twin (b'.leaveTo depth) := by
  refine ⟨h.platform, h.cache, ?_, h.requested, h.synced⟩
  rw [Build.leaveTo, Build.leaveTo, h.directories]

theorem asked (h : b.Twin b') (url file : String) : (b.asked url file).Twin (b'.asked url file) :=
  ⟨h.platform, h.cache, h.directories, congrArg ((url, file) :: ·) h.requested, h.synced⟩

theorem emit (h : b.Twin b') (privileged : Bool) (code : String) :
    (b.emit privileged code).Twin (b'.emit privileged code) := by
  rw [Build.emit, Build.emit, currentDirectory, currentDirectory, h.directories]
  exact h.add _

theorem runIn (h : b.Twin b') (directory : Option String) (code : String) :
    (b.runIn directory code).Twin (b'.runIn directory code) := by
  cases directory with
  | none => exact h.emit false code
  | some directory =>
    rw [Build.runIn, Build.runIn, depth, depth, h.directories]
    exact ((h.enter directory).emit false code).leaveTo _

theorem guestFile (h : b.Twin b') (url file : String) : b'.guestFile url file = b.guestFile url file := by
  rw [Build.guestFile, Build.guestFile, h.cache]

theorem bindsGuest (h : b.Twin b') (guest : String) :
    b'.session.bindsGuest guest = b.session.bindsGuest guest := by
  rw [Session.bindsGuest, Session.bindsGuest, h.synced]

end Build.Twin

/-- Every file of the cache that is on the host `m` is on `m'` too. -/
def Cache.Root.Fuller (cache : Cache.Root) (m m' : Host.Machine) : Prop :=
  ∀ url file, m.pathExists ((cache.slot url).hostFile file) = true →
    m'.pathExists ((cache.slot url).hostFile file) = true

variable {cache : Cache.Root} {m m' : Host.Machine} {b b' : Build} {s s' : Site}

/-- A request schedules a download on both hosts, on one of them or on none. -/
theorem Build.Twin.fetch (h : b.Twin b') (here : b.cache = cache) (url file : String) :
    (b.fetch m url file).2.Twin (b'.fetch m' url file).2 ∧
      Writing.Thins (cache.Fuller m m') (b.downloads m url file) (b'.downloads m' url file) := by
  have path := h.guestFile url file
  unfold downloads
  -- The ledgers are the same, so the hosts are looked at in both runs or in none.
  by_cases old : (url, file) ∈ b.requested
  · rw [fetch_of_old old, fetch_of_old (h.requested ▸ old)]
    exact ⟨h, .refl _⟩
  · have asked := h.asked url file
    have download : b'.downloadOf url file = b.downloadOf url file := by
      rw [downloadOf, downloadOf, path, fragment, fragment, currentDirectory, currentDirectory, h.directories]
    have holds : b.isCached m url file = m.pathExists ((cache.slot url).hostFile file) := by
      rw [isCached, here]
    have holds' : b'.isCached m' url file = m'.pathExists ((cache.slot url).hostFile file) := by
      rw [isCached, h.cache, here]
    rw [fetch_of_new old, fetch_of_new (h.requested ▸ old), download, path]
    cases first : b.isCached m url file <;> cases second : b'.isCached m' url file
    · exact ⟨asked.add _, .refl _⟩
    · exact ⟨asked.addLeft _, rfl, fun _ => List.nil_sublist _⟩
    · refine ⟨asked.addRight _, rfl, fun fuller => ?_⟩
      have found := fuller url file (holds.symm.trans first)
      exact absurd (found.symm.trans (holds'.symm.trans second)) (by decide)
    · exact ⟨asked, .refl _⟩

/-- The same place in two runs on the hosts `m` and `m'`. -/
structure Site.Twin (cache : Cache.Root) (m m' : Host.Machine) (s s' : Site) : Prop where
  machine : s.machine = m
  machine' : s'.machine = m'
  cache : s.build.cache = cache
  build : s.build.Twin s'.build

namespace Site.Twin

/-- The hosts have no part in a change. -/
theorem change (h : s.Twin cache m m' s') {b b' : Build} (here : b.cache = s.build.cache) (twin : b.Twin b') :
    Site.Twin cache m m' { s with build := b } { s' with build := b' } :=
  ⟨h.machine, h.machine', here.trans h.cache, twin⟩

theorem enter (h : s.Twin cache m m' s') (directory : String) :
    Site.Twin cache m m' (s.enter directory) (s'.enter directory) := h.change rfl (h.build.enter directory)

theorem leaveTo (h : s.Twin cache m m' s') (depth : Nat) :
    Site.Twin cache m m' (s.leaveTo depth) (s'.leaveTo depth) := h.change rfl (h.build.leaveTo depth)

theorem fetch (h : s.Twin cache m m' s') (url file : String) :
    Site.Twin cache m m' { s with build := (s.build.fetch s.machine url file).2 }
        { s' with build := (s'.build.fetch s'.machine url file).2 } ∧
      Writing.Thins (cache.Fuller m m') (s.build.downloads s.machine url file)
        (s'.build.downloads s'.machine url file) := by
  have kept := (s.build.fetch_fetches m url file).cache
  have fetched : (s.build.fetch m url file).2.Twin (s'.build.fetch m' url file).2 ∧
      Writing.Thins (cache.Fuller m m') (s.build.downloads m url file) (s'.build.downloads m' url file) :=
    h.build.fetch h.cache url file
  rw [h.machine, h.machine']
  exact ⟨⟨rfl, rfl, kept.trans h.cache, fetched.1⟩, fetched.2⟩

end Site.Twin

/-! ### Recipes -/

/-- Two ends of the same run: results that `f` makes equal, twin sites, and writings that are the same but for
downloads. -/
structure TwinEnds (cache : Cache.Root) (m m' : Host.Machine) (f : α → γ) (x x' : Except Failure α × Site)
    (ws ws' : List Writing) : Prop where
  outcome : x.1.map f = x'.1.map f
  site : x.2.Twin cache m m' x'.2
  writings : Writing.Thins (cache.Fuller m m') ws ws'

theorem TwinEnds.same {x x' : Except Failure α × Site} {ws ws' : List Writing}
    (h : TwinEnds cache m m' id x x' ws ws') : x.1 = x'.1 := by
  have outcome := h.outcome
  rwa [Except.map_id] at outcome

theorem Step.perform_twin {step : Step} (indoors : step.Indoors) (h : s.Twin cache m m' s') :
    TwinEnds cache m m' id (step.perform s) (step.perform s') (step.writings s) (step.writings s') := by
  cases step with
  | add d => exact ⟨rfl, h.change rfl (h.build.add d), .refl _⟩
  | run privileged code => exact ⟨rfl, h.change rfl (h.build.emit privileged code), .refl _⟩
  | runIn directory code =>
    refine ⟨rfl, h.change ?_ (h.build.runIn directory code), .refl _⟩
    cases directory <;> rfl
  | install i =>
    obtain ⟨twin, thins⟩ := h.fetch i.url i.file
    have path := h.build.guestFile i.url i.file
    have kept := (s.build.fetch_fetches s.machine i.url i.file).cache
    have installed : (s.build.install s.machine i).Twin (s'.build.install s'.machine i) := by
      rw [Build.install, Build.install, path]
      exact twin.build.emit i.privileged (i.script (s.build.guestFile i.url i.file))
    refine ⟨rfl, h.change kept installed, ?_⟩
    rw [writings, writings, path]
    exact thins.append (.refl _)
  | requireUnbound guest =>
    have bound := h.build.bindsGuest guest
    rw [perform, perform, bound]
    split
    · exact ⟨rfl, h, .refl _⟩
    · exact ⟨rfl, h, .refl _⟩
  | ensureDirectory path => exact indoors.elim

/-- A recipe that makes nothing of the answers to its requests comes to the same on both hosts. -/
theorem Provision.Alike.perform_twin {f : α → γ} {p q : Provision α} (alike : p.Alike Step.Indoors f q)
    (h : s.Twin cache m m' s') :
    TwinEnds cache m m' f (p.perform s) (q.perform s') (p.writings s) (q.writings s') := by
  induction alike generalizing s s' with
  | done same => exact ⟨congrArg Except.ok same, h, .refl _⟩
  | fail e => exact ⟨rfl, h, .refl _⟩
  | @step first indoors p q _ ih =>
    have ends := first.perform_twin indoors h
    have same := ends.same
    obtain ⟨-, site, thins⟩ := ends
    simp only [perform, writings]
    revert same site
    rcases first.perform s with ⟨r, t⟩
    rcases first.perform s' with ⟨r', t'⟩
    rintro rfl site
    cases r with
    | error e => exact ⟨rfl, site, thins.append (.refl _)⟩
    | ok _ =>
      obtain ⟨outcome, site, later⟩ := ih site
      exact ⟨outcome, site, thins.append later⟩
  | request url file _ ih =>
    obtain ⟨twin, thins⟩ := h.fetch url file
    rw [perform, perform, writings, writings, h.build.guestFile]
    obtain ⟨outcome, site, later⟩ := ih _ _ _ twin
    exact ⟨outcome, site, thins.append later⟩

/-! ### Statements -/

/-- From twin sites, and states that are related by `R`, the action comes to twin ends and related states. -/
def Nested.Twins (cache : Cache.Root) (m m' : Host.Machine) (R : τ → τ → Prop) (f : α → γ)
    (ws : Site → List Writing) (a : Nested τ α) : Prop :=
  ∀ (s s' : Site) (t t' : τ), s.Twin cache m m' s' → R t t' →
    TwinEnds cache m m' f ((a.runOn (s, t)).1, (a.runOn (s, t)).2.1)
        ((a.runOn (s', t')).1, (a.runOn (s', t')).2.1) (ws s) (ws s') ∧
      R (a.runOn (s, t)).2.2 (a.runOn (s', t')).2.2

namespace Nested.Twins

variable {R : τ → τ → Prop} {ws : Site → List Writing} {block : Option (Nested τ Unit)}
  {blockWs : Option (Site → List Writing)}

theorem ofProvision {f : α → γ} {p : Provision α} (alike : p.Alike Step.Indoors f p) :
    (Nested.ofProvision p).Twins cache m m' R f p.writings :=
  fun _ _ _ _ twin related => ⟨alike.perform_twin twin, related⟩

theorem inDirectory {a : Nested τ Unit} (h : a.Twins cache m m' R id ws) (directory : String) :
    (a.inDirectory directory).Twins cache m m' R id
      fun s => (ws (s.enter directory)).map (·.inside [directory]) := by
  intro s s' t t' twin related
  obtain ⟨⟨outcome, site, thins⟩, state⟩ := h _ _ t t' (twin.enter directory) related
  have depth : s'.build.depth = s.build.depth := congrArg List.length twin.build.directories
  rw [runOn_inDirectory, runOn_inDirectory, depth]
  exact ⟨⟨outcome, site.leaveTo _, thins.inside [directory]⟩, state⟩

/-- A statement of the shipped recipes that syncs no folder. -/
theorem dispatch {c : Command} (other : ¬c.SyncsFolder)
    (h : Option.Rel (Nested.Twins cache m m' R id) blockWs block) :
    (Recipe.shipped.dispatch c block).Twins cache m m' R id (Recipe.shipped.writings c blockWs) := by
  intro s s' t t' twin related
  have same : blockWs.isSome = block.isSome := by cases h <;> rfl
  rw [Registry.dispatch_runOn, Registry.dispatch_runOn, Registry.writings, Registry.writings, same,
    twin.build.platform]
  cases course : Recipe.shipped.course c s.build.platform block.isSome with
  | refused e => exact ⟨⟨rfl, twin, .refl _⟩, related⟩
  | steps p => exact ofProvision (Registry.shipped_course_indoors other course) s s' t t' twin related
  | inside directory =>
    cases h with
    | some h => exact h.inDirectory directory s s' t t' twin related
    | none => exact ⟨⟨rfl, twin, .refl _⟩, related⟩

end Nested.Twins

end Provisioning
