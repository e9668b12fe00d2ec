import Provisioning.CommandLine.Run

/-! The layers of the options. Each option has the value of the last layer that sets it: the defaults, the environment
or the command line. But the environment is read before the command line counts, so that a platform in it that cannot
be read is an error even if the command line sets another one. -/

namespace Provisioning

/-- The platform that the environment sets, if it sets one. -/
def Environment.platform? (env : Environment) : Except Platform.Unknown (Option Platform) :=
  match env.lookup Options.platformVariable with
  | none => .ok none
  | some text => (Platform.parse text).map some

/-- The environments set the same values, up to the platform. -/
def Environment.AgreeElsewhere (env env' : Environment) : Prop :=
  ∀ name, name ≠ Options.platformVariable → env.lookup name = env'.lookup name

/-- The value of the last layer that sets one. -/
def lastSet {α : Type} (default : α) (environment commandLine : Option α) : α :=
  (commandLine.or environment).getD default

namespace Options

/-! ### The environment -/

theorem withPlatform_eq (o : Options) (env : Environment) :
    o.withPlatform (env.lookup platformVariable) =
      match env.platform? with
      | .ok set => .ok { o with platform := set.getD o.platform }
      | .error e => .error (.platform platformVariable e) := by
  rw [Environment.platform?]
  cases env.lookup platformVariable with
  | none => rfl
  | some text =>
    dsimp only [withPlatform]
    cases Platform.parse text <;> rfl

theorem withCacheHost_eq (o : Options) (path : Option String) :
    o.withCacheHost path = { o with cacheHost := path.getD o.cacheHost } := by
  cases path <;> rfl

theorem withCacheGuest_eq (o : Options) (path : Option String) (absolute : Host.Path.isAbsolute o.cacheGuest = true) :
    o.withCacheGuest path =
      if Host.Path.isAbsolute (path.getD o.cacheGuest) = true then .ok { o with cacheGuest := path.getD o.cacheGuest }
      else .error (.relativeGuestPath cacheGuestVariable (path.getD o.cacheGuest)) := by
  cases path with
  | none => exact (if_pos absolute).symm
  | some path => rfl

theorem isAbsolute_default : Host.Path.isAbsolute defaults.cacheGuest = true := by decide

/-- The guest's side of the cache that an environment asks for. -/
def guestOf (env : Environment) : String := lastSet defaults.cacheGuest (env.lookup cacheGuestVariable) none

/-- The platform is looked at first, then the guest's side of the cache. -/
theorem ofEnvironment_eq (env : Environment) : ofEnvironment env =
    match env.platform? with
    | .error e => .error (.platform platformVariable e)
    | .ok set =>
      if Host.Path.isAbsolute (guestOf env) = true then
        .ok ⟨lastSet defaults.platform set none, lastSet defaults.cacheHost (env.lookup cacheHostVariable) none,
          guestOf env⟩
      else .error (.relativeGuestPath cacheGuestVariable (guestOf env)) := by
  rw [ofEnvironment, withPlatform_eq]
  cases env.platform? with
  | error e => rfl
  | ok set =>
    have absolute : Host.Path.isAbsolute
        ({ defaults with platform := set.getD defaults.platform }.withCacheHost
          (env.lookup cacheHostVariable)).cacheGuest = true := by
      rw [withCacheHost_eq]
      exact isAbsolute_default
    change withCacheGuest _ _ = _
    rw [withCacheGuest_eq _ _ absolute, withCacheHost_eq]
    rfl

end Options

/-! ### The command line -/

namespace CommandLine

open Options

variable {env env' : Environment}

theorem buildOptions_eq (env : Environment) (platform : Option Platform) : buildOptions env platform =
    match env.platform? with
    | .error e => .error (.platform platformVariable e)
    | .ok set =>
      if Host.Path.isAbsolute (guestOf env) = true then
        .ok ⟨lastSet defaults.platform set platform, lastSet defaults.cacheHost (env.lookup cacheHostVariable) none,
          guestOf env⟩
      else .error (.relativeGuestPath cacheGuestVariable (guestOf env)) := by
  rw [buildOptions, ofEnvironment_eq]
  cases env.platform? with
  | error e => rfl
  | ok set =>
    dsimp only
    by_cases absolute : Host.Path.isAbsolute (guestOf env) = true
    · rw [if_pos absolute, if_pos absolute]
      cases platform <;> rfl
    · rw [if_neg absolute, if_neg absolute]
      rfl

/-- With a platform on the command line, the options are the same for environments that agree up to the platform, as
long as the one that each of them sets can be read. -/
theorem buildOptions_congr (agree : env.AgreeElsewhere env') {set set' : Option Platform}
    (read : env.platform? = .ok set) (read' : env'.platform? = .ok set') (p : Platform) :
    buildOptions env (some p) = buildOptions env' (some p) := by
  have guest : guestOf env = guestOf env' := by
    rw [guestOf, guestOf, agree cacheGuestVariable (by decide)]
  rw [buildOptions_eq, buildOptions_eq, read, read', guest, agree cacheHostVariable (by decide)]
  rfl

/-- A relative path for the cache in the guest can only come from the environment. -/
theorem lookup_of_relative (relative : Host.Path.isAbsolute (guestOf env) = false) :
    env.lookup cacheGuestVariable = some (guestOf env) := by
  cases given : env.lookup cacheGuestVariable with
  | none =>
    have default : guestOf env = defaults.cacheGuest := by rw [guestOf, given]; rfl
    rw [default, isAbsolute_default] at relative
    cases relative
  | some guest => rw [guestOf, given]; rfl

theorem buildOptions_eq_ok (env : Environment) (platform : Option Platform) (o : Options) :
    buildOptions env platform = .ok o ↔ ∃ set, env.platform? = .ok set ∧
      Host.Path.isAbsolute (guestOf env) = true ∧ o = ⟨lastSet defaults.platform set platform,
        lastSet defaults.cacheHost (env.lookup cacheHostVariable) none, guestOf env⟩ := by
  rw [buildOptions_eq]
  cases env.platform? with
  | error cause => simp
  | ok set =>
    by_cases absolute : Host.Path.isAbsolute (guestOf env) = true
    · simp [absolute, eq_comm]
    · simp [absolute]

theorem buildOptions_eq_error (env : Environment) (platform : Option Platform) (e : OptionsError) :
    buildOptions env platform = .error e ↔
      (∃ cause, env.platform? = .error cause ∧ e = .platform platformVariable cause) ∨
        (∃ set, env.platform? = .ok set) ∧ Host.Path.isAbsolute (guestOf env) = false ∧
          e = .relativeGuestPath cacheGuestVariable (guestOf env) := by
  rw [buildOptions_eq]
  cases env.platform? with
  | error cause => simp [@eq_comm _ e]
  | ok set =>
    by_cases absolute : Host.Path.isAbsolute (guestOf env) = true
    · simp [absolute]
    · simp [absolute, @eq_comm _ e]

/-- Options are given exactly if the environment's platform can be read and the guest's side of the cache is absolute,
and then each has the value of the last layer that sets it. The platform of the environment is looked at first, whether
or not it counts. If the command line sets a platform, it does not matter which one the environment sets, or whether it
sets one, as long as it can be read. -/
theorem options_layered (env : Environment) (platform : Option Platform) :
    (∀ o, buildOptions env platform = .ok o ↔
      ∃ set, env.platform? = .ok set ∧
        o.platform = lastSet defaults.platform set platform ∧
        o.cacheHost = lastSet defaults.cacheHost (env.lookup cacheHostVariable) none ∧
        o.cacheGuest = lastSet defaults.cacheGuest (env.lookup cacheGuestVariable) none ∧
        Host.Path.isAbsolute o.cacheGuest = true) ∧
      (∀ e, buildOptions env platform = .error e ↔
        (∃ cause, env.platform? = .error cause ∧ e = .platform platformVariable cause) ∨
          (∃ set, env.platform? = .ok set) ∧ ∃ guest, env.lookup cacheGuestVariable = some guest ∧
            Host.Path.isAbsolute guest = false ∧ e = .relativeGuestPath cacheGuestVariable guest) ∧
      ∀ env' : Environment, env.AgreeElsewhere env' →
        (∃ set, env.platform? = .ok set) → (∃ set, env'.platform? = .ok set) →
        ∀ p, buildOptions env (some p) = buildOptions env' (some p) := by
  refine ⟨fun o => ?_, fun e => ?_, fun env' agree ⟨_, read⟩ ⟨_, read'⟩ => buildOptions_congr agree read read'⟩
  · rw [buildOptions_eq_ok]
    refine exists_congr fun set => and_congr_right fun _ => ?_
    constructor
    · rintro ⟨absolute, rfl⟩
      exact ⟨rfl, rfl, rfl, absolute⟩
    · obtain ⟨p, host, guest⟩ := o
      rintro ⟨rfl, rfl, rfl, absolute⟩
      exact ⟨absolute, rfl⟩
  · rw [buildOptions_eq_error]
    refine or_congr_right (and_congr_right fun _ => ?_)
    constructor
    · rintro ⟨relative, rfl⟩
      exact ⟨_, lookup_of_relative relative, relative, rfl⟩
    · rintro ⟨guest, given, relative, rfl⟩
      have same : guestOf env = guest := by rw [guestOf, given]; rfl
      exact ⟨same ▸ relative, same ▸ rfl⟩

/-- A platform in the environment that cannot be read is an error although the command line sets another one. -/
theorem overridden_platform_refused :
    buildOptions [("VMPROV_PLATFORM", "beos")] (some .linux) = .error (.platform "VMPROV_PLATFORM" ⟨"beos"⟩) ∧
      buildOptions [] (some .linux) = .ok { Options.defaults with platform := .linux } :=
  ⟨by rfl, by rfl⟩

end CommandLine

end Provisioning
