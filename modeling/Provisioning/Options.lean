import Provisioning.Cache.Root
import Provisioning.Platform

/-! Build options: defaults, then the environment, then what the caller sets. -/

namespace Provisioning

structure Options where
  platform : Platform
  /-- The host's side of the cache, seen from the directory of the configuration. -/
  cacheHost : String
  /-- The guest's side of the cache. -/
  cacheGuest : String
deriving DecidableEq, Repr

/-- Why the environment gives no options. -/
inductive OptionsError where
  | platform (variableName : String) (cause : Platform.Unknown)
  | relativeGuestPath (variableName value : String)
deriving DecidableEq, Repr

def OptionsError.message : OptionsError → String
  | .platform name cause => "invalid " ++ name ++ ": " ++ cause.message
  | .relativeGuestPath name value =>
    name ++ " must be an absolute guest path, got '" ++ value ++ "'"

/-- The variables of the environment that are set. -/
abbrev Environment := List (String × String)

namespace Options

def platformVariable : String := "VMPROV_PLATFORM"
def cacheHostVariable : String := "VMPROV_CACHE_HOST"
def cacheGuestVariable : String := "VMPROV_CACHE_GUEST"

/-- The variables of the environment that give options. -/
def variableNames : List String := [platformVariable, cacheHostVariable, cacheGuestVariable]

def defaults : Options := ⟨.osx, "provisioning_cache", "/.provisioning_cache"⟩

def withPlatform (o : Options) : Option String → Except OptionsError Options
  | none => .ok o
  | some text =>
    match Platform.parse text with
    | .ok p => .ok { o with platform := p }
    | .error e => .error (.platform platformVariable e)

def withCacheHost (o : Options) : Option String → Options
  | none => o
  | some path => { o with cacheHost := path }

def withCacheGuest (o : Options) : Option String → Except OptionsError Options
  | none => .ok o
  | some path =>
    if Host.Path.isAbsolute path then .ok { o with cacheGuest := path }
    else .error (.relativeGuestPath cacheGuestVariable path)

/-- The defaults with what the environment sets in their place. The platform is looked at first. -/
def ofEnvironment (env : Environment) : Except OptionsError Options := do
  let o ← defaults.withPlatform (env.lookup platformVariable)
  (o.withCacheHost (env.lookup cacheHostVariable)).withCacheGuest (env.lookup cacheGuestVariable)

/-- The two sides of the cache. The guest's side has no slash at its end. -/
def cacheRoot (o : Options) (configDirectory : String) : Cache.Root where
  host := Host.Path.join configDirectory o.cacheHost
  guest := Host.Path.dropEndSlashes o.cacheGuest

end Options

end Provisioning
