import Provisioning.Proofs.CachePlace
import Provisioning.Proofs.Text.Ends

/-! The guest's side of the cache. The environment may set it to an absolute path only, and the guest has the cache at
that path without the slashes at its end. A path of slashes alone is absolute, but nothing is left of it then. -/

namespace Provisioning

open Host

/-! ### Slashes at the end -/

namespace Host.Path

theorem toList_dropEndSlashes (path : String) :
    (dropEndSlashes path).toList = Text.dropEndWhile (· == '/') path.toList :=
  String.toList_ofList

theorem exists_endSlashes (path : String) :
    ∃ n, path.toList = (dropEndSlashes path).toList ++ List.replicate n '/' := by
  obtain ⟨tail, eq, slashes⟩ := Text.exists_dropped (· == '/') path.toList
  have replicated : tail = List.replicate tail.length '/' :=
    List.eq_replicate_iff.mpr ⟨rfl, fun c mem => beq_iff_eq.mp (slashes c mem)⟩
  refine ⟨tail.length, ?_⟩
  rw [toList_dropEndSlashes, ← replicated]
  exact eq

theorem getLast?_dropEndSlashes (path : String) : (dropEndSlashes path).toList.getLast? ≠ some '/' := by
  intro slash
  rw [toList_dropEndSlashes] at slash
  have other := Text.of_getLast?_dropEndWhile slash
  exact absurd other (by simp)

theorem dropEndSlashes_eq_empty {path : String} : dropEndSlashes path = "" ↔ ∀ c ∈ path.toList, c = '/' := by
  rw [← String.toList_eq_nil_iff, toList_dropEndSlashes]
  constructor
  · intro none c mem
    obtain ⟨tail, eq, slashes⟩ := Text.exists_dropped (· == '/') path.toList
    rw [none, List.nil_append] at eq
    rw [eq] at mem
    exact beq_iff_eq.mp (slashes c mem)
  · intro slashes
    have all := Text.dropEndWhile_append_of_pos (p := (· == '/')) [] fun c mem => beq_iff_eq.mpr (slashes c mem)
    exact all

/-- What is left of an absolute path is absolute unless nothing is left. -/
theorem isAbsolute_dropEndSlashes {path : String} (h : isAbsolute path = true) :
    isAbsolute (dropEndSlashes path) = true ↔ ∃ c ∈ path.toList, c ≠ '/' := by
  by_cases slashes : ∀ c ∈ path.toList, c = '/'
  · rw [dropEndSlashes_eq_empty.mpr slashes]
    simpa [isAbsolute] using slashes
  · have left : dropEndSlashes path ≠ "" := mt dropEndSlashes_eq_empty.mp slashes
    obtain ⟨n, eq⟩ := exists_endSlashes path
    rw [← isAbsolute_of_prefix left ⟨_, eq.symm⟩, h]
    simpa using slashes

end Host.Path

/-! ### Options -/

namespace Options

variable {o o' : Options}

theorem withPlatform_cacheGuest {text : Option String} (h : o.withPlatform text = .ok o') :
    o'.cacheGuest = o.cacheGuest := by
  cases text with
  | none =>
    obtain rfl := Except.ok.inj h
    rfl
  | some text =>
    rw [withPlatform] at h
    split at h
    · obtain rfl := Except.ok.inj h
      rfl
    · cases h

theorem withCacheHost_cacheGuest (o : Options) (path : Option String) :
    (o.withCacheHost path).cacheGuest = o.cacheGuest := by
  cases path <;> rfl

theorem withCacheGuest_cacheGuest {path : Option String} (h : o.withCacheGuest path = .ok o') :
    o'.cacheGuest = path.getD o.cacheGuest ∧ ∀ p, path = some p → Path.isAbsolute p = true := by
  cases path with
  | none =>
    obtain rfl := Except.ok.inj h
    exact ⟨rfl, nofun⟩
  | some path =>
    rw [withCacheGuest] at h
    split at h
    · next absolute =>
      obtain rfl := Except.ok.inj h
      exact ⟨rfl, fun p eq => Option.some.inj eq ▸ absolute⟩
    · cases h

theorem ofEnvironment_cacheGuest {env : Environment} (h : ofEnvironment env = .ok o) :
    o.cacheGuest = (env.lookup cacheGuestVariable).getD defaults.cacheGuest ∧
      Path.isAbsolute o.cacheGuest = true := by
  rw [ofEnvironment] at h
  cases chosen : defaults.withPlatform (env.lookup platformVariable) with
  | error e =>
    rw [chosen] at h
    cases h
  | ok first =>
    rw [chosen] at h
    obtain ⟨given, absolute⟩ := withCacheGuest_cacheGuest h
    rw [withCacheHost_cacheGuest, withPlatform_cacheGuest chosen] at given
    refine ⟨given, ?_⟩
    rw [given]
    cases set : env.lookup cacheGuestVariable with
    | none => decide
    | some path => exact absolute path set

end Options

/-! ### The guest's side -/

theorem Cache.Root.isAbsolute_guestFile {r : Cache.Root} (h : Path.isAbsolute r.guest = true ∨ r.guest = "")
    (url file : String) : Path.isAbsolute ((r.slot url).guestFile file) = true := by
  obtain absolute | none := h
  · have some : r.guest ≠ "" := by
      rintro none
      rw [none] at absolute
      cases absolute
    rw [← absolute]
    refine Path.isAbsolute_of_prefix some ?_
    simp [Cache.Slot.guestFile, Cache.Root.slot]
  · simp [Cache.Slot.guestFile, Cache.Root.slot, none, Path.isAbsolute]

namespace Evaluation

variable {env : Environment} {o : Options}

/-- The guest has the cache at the path that the environment sets, without the slashes at its end. That path is absolute
unless it was made of slashes only and is empty now. In every state of an evaluation the first synced folder is bound to
it, and the artifacts lie under it, at absolute paths in any case. -/
theorem guest_cache (accepted : Options.ofEnvironment env = .ok o) (L : Language) (directory : String)
    (load : Machine → Except EvaluationError L.Script) (m : Machine) :
    let root := o.cacheRoot directory
    let given := (env.lookup Options.cacheGuestVariable).getD Options.defaults.cacheGuest
    ((∃ n, given.toList = root.guest.toList ++ List.replicate n '/') ∧ root.guest.toList.getLast? ≠ some '/') ∧
      (Path.isAbsolute root.guest = true ↔ ∃ c ∈ given.toList, c ≠ '/') ∧
      (root.guest = "" ↔ ∀ c ∈ given.toList, c = '/') ∧
      (∀ s ∈ sites L o directory load m,
        s.build.session.directives.head? = some (.syncedFolder root.host root.guest) ∧
        ∀ url file, s.build.guestFile url file = root.guest ++ "/" ++ Cache.Segment.encode url ++ "/" ++ file ∧
          Path.isAbsolute (s.build.guestFile url file) = true) ∧
      ∀ session, (run L o directory load m).1 = .ok session →
        session.directives.head? = some (.syncedFolder root.host root.guest) := by
  intro root given
  obtain ⟨set, absolute⟩ : o.cacheGuest = given ∧ Path.isAbsolute o.cacheGuest = true :=
    Options.ofEnvironment_cacheGuest accepted
  have guest : root.guest = Path.dropEndSlashes given := congrArg Path.dropEndSlashes set
  rw [set] at absolute
  have kept : Path.isAbsolute root.guest = true ↔ ∃ c ∈ given.toList, c ≠ '/' :=
    guest ▸ Path.isAbsolute_dropEndSlashes absolute
  have gone : root.guest = "" ↔ ∀ c ∈ given.toList, c = '/' := guest ▸ Path.dropEndSlashes_eq_empty
  have rooted : Path.isAbsolute root.guest = true ∨ root.guest = "" := by
    rw [kept, gone, or_iff_not_imp_left]
    intro none
    simpa using none
  refine ⟨guest ▸ ⟨Path.exists_endSlashes given, Path.getLast?_dropEndSlashes given⟩, kept, gone, fun s hs => ?_,
    fun session h => ?_⟩
  · have cache : s.build.cache = root := sites_cache s hs
    have inOrder : s.CacheFirst root := sites_cacheFirst s hs
    refine ⟨inOrder.first, fun url file => ?_⟩
    rw [Build.guestFile, cache]
    exact ⟨rfl, root.isAbsolute_guestFile rooted url file⟩
  · rw [(run_ok h).2, List.head?_cons]

theorem guest_cache_slashed :
    let o : Options := { Options.defaults with cacheGuest := "/mnt//" }
    Options.ofEnvironment [("VMPROV_CACHE_GUEST", "/mnt//")] = .ok o ∧
      (o.cacheRoot "proj").guest = "/mnt" ∧ Path.isAbsolute (o.cacheRoot "proj").guest = true :=
  have accepted : Options.ofEnvironment [("VMPROV_CACHE_GUEST", "/mnt//")] =
      .ok { Options.defaults with cacheGuest := "/mnt//" } := by rfl
  have cache := guest_cache accepted language "proj" (fun _ => .error .malformed) ⟨⟨[]⟩, [], none⟩
  ⟨accepted, by decide, cache.2.1.mpr ⟨'m', by decide, by decide⟩⟩

/-- A path of slashes alone is accepted, and the cache is bound to no path at all. -/
theorem slashes_leave_nothing :
    ∃ o, Options.ofEnvironment [("VMPROV_CACHE_GUEST", "/")] = .ok o ∧
      ∀ directory, (o.cacheRoot directory).guest = "" ∧ Path.isAbsolute (o.cacheRoot directory).guest = false :=
  have emptied : Path.dropEndSlashes "/" = "" := by decide
  have relative : Path.isAbsolute "" = false := by decide
  ⟨{ Options.defaults with cacheGuest := "/" }, by rfl,
    fun _ => ⟨emptied, (congrArg Path.isAbsolute emptied).trans relative⟩⟩

end Evaluation

end Provisioning
