import Provisioning.Platform
import Provisioning.Text.Blank

/-! The registry: which recipe a subject and an action name on which platform. Recipes are added one
binding at a time, and no binding is replaced. -/

namespace Provisioning

/-- One recipe under its three names. -/
structure Binding (ρ : Type) where
  subject : String
  action : String
  platform : Platform
  recipe : ρ
deriving Repr

/-- The bindings in the order in which they were added. -/
structure Registry (ρ : Type) where
  bindings : List (Binding ρ)
deriving Repr

/-- A binding that is taken already. -/
inductive RegistrationError where
  | duplicate (subject action : String) (platform : Platform)
deriving DecidableEq, Repr

def RegistrationError.message : RegistrationError → String
  | .duplicate subject action platform =>
    "handler for '" ++ subject ++ " " ++ action ++ "' on " ++ platform.name ++ " is already registered"

/-- Why a statement has no recipe. -/
inductive DispatchError where
  | unknownSubject (subject : String)
  | missingAction (subject : String)
  | unknownAction (subject action : String)
  | noImplementation (subject action : String) (platform : Platform)
deriving DecidableEq, Repr

def DispatchError.message : DispatchError → String
  | .unknownSubject subject =>
    "unknown subject '" ++ subject ++ "' (no actions are registered under it)"
  | .missingAction subject =>
    "no action specified for subject '" ++ subject ++ "' (try something like: " ++ subject
      ++ " \"SomeAction\")"
  | .unknownAction subject action =>
    "unknown action '" ++ action ++ "' for subject '" ++ subject ++ "'"
  | .noImplementation subject action platform =>
    "no " ++ platform.name ++ " implementation of '" ++ subject ++ " " ++ action ++ "'"

namespace Registry

variable {ρ : Type}

def empty : Registry ρ := ⟨[]⟩

/-- The bindings of an action. -/
def under (r : Registry ρ) (subject action : String) : List (Binding ρ) :=
  r.bindings.filter fun b => b.subject = subject ∧ b.action = action

def recipe? (r : Registry ρ) (subject action : String) (platform : Platform) : Option ρ :=
  ((r.under subject action).find? (·.platform = platform)).map (·.recipe)

def hasSubject (r : Registry ρ) (subject : String) : Bool :=
  r.bindings.any (·.subject = subject)

def hasAction (r : Registry ρ) (subject action : String) : Bool :=
  !(r.under subject action).isEmpty

def register (r : Registry ρ) (subject action : String) (platform : Platform) (recipe : ρ) :
    Except RegistrationError (Registry ρ) :=
  match r.recipe? subject action platform with
  | some _ => .error (.duplicate subject action platform)
  | none => .ok ⟨r.bindings ++ [⟨subject, action, platform, recipe⟩]⟩

/-- Binds a recipe on several platforms, in their order. What was bound before a duplicate stays
bound. -/
def registerOn (r : Registry ρ) (subject action : String) (recipe : ρ) :
    List Platform → Except RegistrationError Unit × Registry ρ
  | [] => (.ok (), r)
  | p :: ps =>
    match r.register subject action p recipe with
    | .error e => (.error e, r)
    | .ok r => r.registerOn subject action recipe ps

/-- Names in ascending order, each once. -/
def sortedNames (names : List String) : List String := names.eraseDups.mergeSort (· ≤ ·)

def subjects (r : Registry ρ) : List String := sortedNames (r.bindings.map (·.subject))

def actionNames (r : Registry ρ) (subject : String) : List String :=
  sortedNames ((r.bindings.filter (·.subject = subject)).map (·.action))

/-- The actions of a subject, each with the platforms that it is implemented on. -/
def actions (r : Registry ρ) (subject : String) : List (String × List Platform) :=
  (r.actionNames subject).map fun action =>
    (action, Platform.all.filter fun p => (r.recipe? subject action p).isSome)

/-- A statement's recipe. The subject is looked at first, then whether there is an action at all, then
the action and last the platform. -/
def resolve (r : Registry ρ) (subject : String) (action : Option String) (platform : Platform) :
    Except DispatchError ρ :=
  if !r.hasSubject subject then .error (.unknownSubject subject)
  else
    match action with
    | none => .error (.missingAction subject)
    | some action =>
      if !r.hasAction subject action then .error (.unknownAction subject action)
      else
        match r.recipe? subject action platform with
        | none => .error (.noImplementation subject action platform)
        | some recipe => .ok recipe

/-! ### Flattened names -/

/-- The letters of a name that decide whether two names mean the same action. -/
def spelling (name : List Char) : List Char := Text.lower (name.filter (· ≠ '_'))

/-- The words between underscores, each with a capital, in one. -/
def camelCase (name : List Char) : List Char :=
  ((Text.splitOn '_' name).filter (· ≠ [])).flatMap Text.capitalize

/-- The subject and the action that a flattened name stands for: the part before the first underscore
names the subject in any case of letters, the rest an action up to case and underscores. A rest that
names no action of the subject is an action in camel case that is not registered. -/
def unflatten? (r : Registry ρ) (name : String) : Option (String × String) :=
  match Text.splitOnce? '_' name.toList with
  | none => none
  | some (verb, rest) =>
    if verb = [] ∨ rest = [] then none
    else
      match r.subjects.find? fun s => Text.sameLetters s.toList verb with
      | none => none
      | some subject =>
        match (r.actionNames subject).find? fun a => spelling a.toList = spelling rest with
        | some action => some (subject, action)
        | none => some (subject, String.ofList (camelCase rest))

end Registry

end Provisioning
