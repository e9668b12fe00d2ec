import Mathlib.Logic.Relation
import Provisioning.Provision

/-! The calls of a build: requests for downloads and installations, each with the site where it is made.
Whatever recipes do is a sequence of moves, and a move adds a directive, opens or closes directories, changes
the host or makes a call. What every move keeps holds throughout every build. -/

namespace Provisioning

variable {α : Type}

/-! ### Requests -/

namespace Build

/-- The fragment that runs `code` in the current directory. -/
def fragment (b : Build) (privileged : Bool) (code : String) : Directive :=
  .shell ⟨Shell.inDirectory code b.currentDirectory, privileged, b.currentDirectory⟩

/-- The fragment that downloads a file. -/
def downloadOf (b : Build) (url file : String) : Directive :=
  b.fragment false (Shell.download url (b.guestFile url file))

/-- Adds a pair to those that were asked for. -/
def asked (b : Build) (url file : String) : Build := { b with requested := (url, file) :: b.requested }

/-- All that a request can come to. -/
theorem fetch_cases (b : Build) (m : Host.Machine) (url file : String) :
    (url, file) ∈ b.requested ∧ b.fetch m url file = (.alreadyRequested, b) ∨
      (url, file) ∉ b.requested ∧ b.isCached m url file = true ∧
        b.fetch m url file = (.present, b.asked url file) ∨
      (url, file) ∉ b.requested ∧ b.isCached m url file = false ∧
        b.fetch m url file = (.scheduled, (b.asked url file).add (b.downloadOf url file)) := by
  by_cases asked : (url, file) ∈ b.requested
  · exact .inl ⟨asked, by simp [fetch, asked]⟩
  · cases cached : b.isCached m url file
    · have missing : (b.asked url file).isCached m url file = false := cached
      refine .inr (.inr ⟨asked, rfl, ?_⟩)
      simp only [fetch, asked, if_false]
      rw [← Build.asked, missing]
      rfl
    · have present : (b.asked url file).isCached m url file = true := cached
      refine .inr (.inl ⟨asked, rfl, ?_⟩)
      simp only [fetch, asked, if_false]
      rw [← Build.asked, present]
      rfl

theorem fetch_of_old {b : Build} {url file : String} (old : (url, file) ∈ b.requested) (m : Host.Machine) :
    b.fetch m url file = (.alreadyRequested, b) := by
  obtain ⟨-, eq⟩ | ⟨new, -⟩ | ⟨new, -⟩ := b.fetch_cases m url file
  · exact eq
  · exact absurd old new
  · exact absurd old new

theorem fetch_of_new {b : Build} {url file : String} (new : (url, file) ∉ b.requested) (m : Host.Machine) :
    b.fetch m url file =
      if b.isCached m url file then (.present, b.asked url file)
      else (.scheduled, (b.asked url file).add (b.downloadOf url file)) := by
  obtain ⟨old, -⟩ | ⟨-, present, eq⟩ | ⟨-, missing, eq⟩ := b.fetch_cases m url file
  · exact absurd old new
  · rw [eq, if_pos present]
  · rw [eq, if_neg (by simp [missing])]

/-- What a request keeps, what it adds and what it remembers. -/
structure Fetches (b : Build) (url file : String) (b' : Build) : Prop where
  platform : b'.platform = b.platform
  cache : b'.cache = b.cache
  directories : b'.directories = b.directories
  requested : ∀ p, p ∈ b'.requested ↔ p = (url, file) ∨ p ∈ b.requested
  session : ∃ downloads, (downloads = [] ∨ downloads = [b.downloadOf url file]) ∧
    b'.session.directives = b.session.directives ++ downloads

theorem fetch_fetches (b : Build) (m : Host.Machine) (url file : String) :
    Fetches b url file (b.fetch m url file).2 := by
  obtain ⟨asked, eq⟩ | ⟨-, -, eq⟩ | ⟨-, -, eq⟩ := b.fetch_cases m url file
  · rw [eq]
    refine ⟨rfl, rfl, rfl, fun p => ⟨.inr, ?_⟩, [], .inl rfl, by simp⟩
    rintro (rfl | h)
    · exact asked
    · exact h
  · rw [eq]
    exact ⟨rfl, rfl, rfl, fun p => List.mem_cons, [], .inl rfl, by simp [asked]⟩
  · rw [eq]
    exact ⟨rfl, rfl, rfl, fun p => List.mem_cons, _, .inr rfl, rfl⟩

/-- The fragment of an installation. -/
def installationOf (b : Build) (i : Installation) : Directive :=
  b.fragment i.privileged (i.script (b.guestFile i.url i.file))

/-- An installation is a request and one fragment for the directory of the request. -/
theorem install_eq (b : Build) (m : Host.Machine) (i : Installation) :
    b.install m i = (b.fetch m i.url i.file).2.add (b.installationOf i) := by
  have directories := (b.fetch_fetches m i.url i.file).directories
  rw [install, emit, installationOf, fragment, currentDirectory, currentDirectory, directories]

end Build

/-! ### Calls -/

/-- A request for a download, on its own or by an installation, with the site of that moment. -/
inductive Call where
  | request (site : Site) (url file : String)
  | install (site : Site) (installation : Installation)

namespace Call

def site : Call → Site
  | .request s _ _ => s
  | .install s _ => s

def url : Call → String
  | .request _ url _ => url
  | .install _ i => i.url

def file : Call → String
  | .request _ _ file => file
  | .install _ i => i.file

def pair (c : Call) : String × String := (c.url, c.file)

/-- The path in the guest that the call is given. -/
def path (c : Call) : String := c.site.build.guestFile c.url c.file

/-- What the request finds. -/
def status (c : Call) : FetchStatus := (c.site.build.fetch c.site.machine c.url c.file).1

/-- The build after the request, and before what an installation adds to it. -/
def fetched (c : Call) : Build := (c.site.build.fetch c.site.machine c.url c.file).2

/-- The site after the call. -/
def after : Call → Site
  | .request s url file => { s with build := (s.build.fetch s.machine url file).2 }
  | .install s i => { s with build := s.build.install s.machine i }

theorem fetches (c : Call) : c.site.build.Fetches c.url c.file c.fetched := Build.fetch_fetches ..

/-- After its request a call adds an installation at most. -/
theorem after_build (c : Call) :
    ∃ more, c.after.build = { c.fetched with session := ⟨c.fetched.session.directives ++ more⟩ } := by
  cases c with
  | request s url file => exact ⟨[], by rw [List.append_nil]; rfl⟩
  | install s i => exact ⟨[_], Build.install_eq ..⟩

end Call

def Step.calls (s : Site) : Step → List Call
  | .install i => [.install s i]
  | .add _ | .run .. | .runIn .. | .requireUnbound _ | .ensureDirectory _ => []

/-- The calls of the steps that are taken. -/
def Provision.calls : Provision α → Site → List Call
  | .done _, _ => []
  | .fail _, _ => []
  | .step first next, s =>
    first.calls s ++
      match first.perform s with
      | (.ok (), s) => next.calls s
      | (.error _, _) => []
  | .request url file next, s =>
    let c : Call := .request s url file
    c :: (next (c.path, c.status)).calls c.after

/-! ### Moves -/

/-- A move, with the calls that were made so far. -/
inductive Move : Site × List Call → Site × List Call → Prop
  | add (s : Site) (l : List Call) (d : Directive) : Move (s, l) ({ s with build := s.build.add d }, l)
  | directories (s : Site) (l : List Call) (ds : List String) :
    Move (s, l) ({ s with build := { s.build with directories := ds } }, l)
  | host (s : Site) (l : List Call) (m : Host.Machine) : Move (s, l) ({ s with machine := m }, l)
  | call (l : List Call) (c : Call) : Move (c.site, l) (c.after, l ++ [c])

abbrev Moves : Site × List Call → Site × List Call → Prop := Relation.ReflTransGen Move

theorem Step.perform_moves (step : Step) (s : Site) (l : List Call) :
    Moves (s, l) ((step.perform s).2, l ++ step.calls s) := by
  cases step with
  | install i => exact .single (.call l (.install s i))
  | add d =>
    rw [calls, List.append_nil]
    exact .single (.add s l d)
  | run privileged code =>
    rw [calls, List.append_nil]
    exact .single (.add s l _)
  | runIn directory code =>
    rw [calls, List.append_nil]
    cases directory with
    | none => exact .single (.add s l _)
    | some directory =>
      have entered : Moves (s, l) (s.enter directory, l) := .single (.directories s l _)
      have added := entered.tail (.add _ l ((s.build.enter directory).fragment false code))
      exact added.tail (.directories _ l _)
  | requireUnbound guest =>
    rw [calls, List.append_nil, perform]
    split <;> exact .refl
  | ensureDirectory path =>
    rw [calls, List.append_nil]
    simp only [perform]
    split
    · exact .refl
    · exact .single (.host s l _)

/-- All that recipes do is moves. -/
theorem Provision.perform_moves (p : Provision α) (s : Site) (l : List Call) :
    Moves (s, l) ((p.perform s).2, l ++ p.calls s) := by
  induction p generalizing s l with
  | done a => simpa [perform, calls] using .refl
  | fail e => simpa [perform, calls] using .refl
  | step first next ih =>
    have moves := first.perform_moves s l
    simp only [perform, calls, ← List.append_assoc]
    rcases h : first.perform s with ⟨e | _, s'⟩ <;> rw [h] at moves
    · simpa using moves
    · exact moves.trans (ih s' _)
  | request url file next ih =>
    have called : Moves (s, l) _ := .single (.call l (.request s url file))
    rw [calls, List.append_cons]
    exact called.trans (ih _ _ _)

/-! ### What moves keep -/

/-- From `x` on the platform and the cache stayed, the session only grew, and what was asked for since then
is what was called since then. -/
structure Grown (x y : Site × List Call) : Prop where
  platform : y.1.build.platform = x.1.build.platform
  cache : y.1.build.cache = x.1.build.cache
  session : x.1.build.session.directives <+: y.1.build.session.directives
  called : ∃ new, y.2 = x.2 ++ new ∧
    ∀ p, p ∈ y.1.build.requested ↔ p ∈ new.map Call.pair ∨ p ∈ x.1.build.requested

namespace Grown

variable {x y z : Site × List Call}

theorem refl (x : Site × List Call) : Grown x x := ⟨rfl, rfl, List.prefix_rfl, [], by simp, by simp⟩

theorem trans (h : Grown x y) (h' : Grown y z) : Grown x z := by
  obtain ⟨new, calls, requested⟩ := h.called
  obtain ⟨new', calls', requested'⟩ := h'.called
  refine ⟨h'.platform.trans h.platform, h'.cache.trans h.cache, h.session.trans h'.session, new ++ new',
    by rw [calls', calls, List.append_assoc], fun p => ?_⟩
  rw [requested', requested, List.map_append, List.mem_append, or_left_comm, or_assoc]

/-- A change of the site that no call makes. -/
theorem quiet (s s' : Site) (platform : s'.build.platform = s.build.platform)
    (cache : s'.build.cache = s.build.cache)
    (session : s.build.session.directives <+: s'.build.session.directives)
    (requested : s'.build.requested = s.build.requested) (l : List Call) : Grown (s, l) (s', l) :=
  ⟨platform, cache, session, [], by simp, by simp [requested]⟩

end Grown

theorem Build.Fetches.session_prefix {b b' : Build} {url file : String} (h : b.Fetches url file b') :
    b.session.directives <+: b'.session.directives := by
  obtain ⟨downloads, -, eq⟩ := h.session
  exact eq ▸ List.prefix_append ..

theorem Call.fetched_prefix (c : Call) :
    c.fetched.session.directives <+: c.after.build.session.directives := by
  obtain ⟨more, eq⟩ := c.after_build
  rw [eq]
  exact List.prefix_append ..

theorem Call.grown (c : Call) (l : List Call) : Grown (c.site, l) (c.after, l ++ [c]) := by
  have session := c.fetches.session_prefix.trans c.fetched_prefix
  obtain ⟨more, eq⟩ := c.after_build
  refine ⟨by rw [eq]; exact c.fetches.platform, by rw [eq]; exact c.fetches.cache, session, [c], rfl, ?_⟩
  rw [eq]
  simpa [Call.pair] using c.fetches.requested

theorem Move.grown {x y : Site × List Call} (h : Move x y) : Grown x y := by
  cases h with
  | add s l d => exact .quiet s { s with build := s.build.add d } rfl rfl (List.prefix_append ..) rfl l
  | directories s l ds =>
    exact .quiet s { s with build := { s.build with directories := ds } } rfl rfl List.prefix_rfl rfl l
  | host s l m => exact .quiet s { s with machine := m } rfl rfl List.prefix_rfl rfl l
  | call l c => exact c.grown l

namespace Moves

variable {x y : Site × List Call}

theorem grown (h : Moves x y) : Grown x y := by
  induction h with
  | refl => exact .refl x
  | tail _ move ih => exact ih.trans move.grown

/-- What was called before matters to no move. -/
theorem shift {s s' : Site} {l l' : List Call} (h : Moves (s, l) (s', l')) (k : List Call) :
    Moves (s, k ++ l) (s', k ++ l') := by
  refine h.lift (fun x => (x.1, k ++ x.2)) fun x y move => ?_
  cases move with
  | add s l d => exact .add s (k ++ l) d
  | directories s l ds => exact .directories s (k ++ l) ds
  | host s l m => exact .host s (k ++ l) m
  | call l c =>
    show Move (c.site, k ++ l) (c.after, k ++ (l ++ [c]))
    rw [← List.append_assoc]
    exact .call (k ++ l) c

/-- The moves up to a call, and those from there on. -/
theorem split {s s' : Site} {past rest : List Call} {c : Call} (h : Moves (s, []) (s', past ++ c :: rest)) :
    Moves (s, []) (c.site, past) ∧ Moves (c.after, past ++ [c]) (s', past ++ c :: rest) := by
  generalize eq : ((s', past ++ c :: rest) : Site × List Call) = y at h
  induction h generalizing s' rest with
  | refl => simp at eq
  | tail moves move ih =>
    cases move with
    | add t l d | directories t l ds | host t l m =>
      obtain ⟨rfl, rfl⟩ := Prod.mk.inj eq
      obtain ⟨before, after⟩ := ih rfl
      exact ⟨before, after.tail (by constructor)⟩
    | call l c' =>
      obtain ⟨rfl, calls⟩ := Prod.mk.inj eq
      -- The call is the last one, or it was made before the last one.
      rcases List.eq_nil_or_concat rest with rfl | ⟨rest, d, rfl⟩
      · obtain ⟨rfl, same⟩ := List.append_inj' calls rfl
        obtain rfl : c = c' := List.head_eq_of_cons_eq same
        exact ⟨moves, .refl⟩
      · rw [List.concat_eq_append, ← List.cons_append, ← List.append_assoc] at calls
        obtain ⟨rfl, same⟩ := List.append_inj' calls rfl
        obtain rfl : d = c' := List.head_eq_of_cons_eq same
        obtain ⟨before, after⟩ := ih rfl
        exact ⟨before, after.tail (.call _ d)⟩

end Moves

end Provisioning
