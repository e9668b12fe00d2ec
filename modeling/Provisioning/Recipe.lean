import Provisioning.Provision

/-! Recipes and the dispatch of statements to them. -/

namespace Provisioning

/-- A recipe takes its own steps, or runs the statement's block in the directory that its first argument
names. -/
inductive Recipe where
  | steps (run : Arguments → Provision Unit)
  | scope

/-- A statement without its block: the subject, the action if one is named, and the arguments. -/
structure Command where
  subject : String
  action : Option String
  values : List Argument
deriving Repr

namespace Command

/-- The statement's name in messages. -/
def label (c : Command) : String :=
  match c.action with
  | some action => c.subject ++ " " ++ action
  | none => c.subject

def arguments (c : Command) : Arguments := ⟨c.label, c.values⟩

end Command

variable {τ : Type}

/-- Runs a recipe. A block that the recipe does not ask for is never run. -/
def Recipe.apply (r : Recipe) (i : Invocation (Nested τ Unit)) : Nested τ Unit :=
  match r with
  | .steps run => .ofProvision (run i.arguments)
  | .scope =>
    match i.arguments.string 0 "dir", i.takeBlock.1 with
    | .error e, _ => throw (.argument e)
    | .ok _, .error e => throw (.argument e)
    | .ok directory, .ok block => block.inDirectory directory

namespace Registry

/-- Finds the statement's recipe for the build's platform and runs it. -/
def dispatch (r : Registry Recipe) (c : Command) (block : Option (Nested τ Unit)) : Nested τ Unit := do
  let (s, _) ← get
  match r.resolve c.subject c.action s.build.platform with
  | .error e => throw (.dispatch e)
  | .ok recipe => recipe.apply ⟨c.arguments, block⟩

end Registry

end Provisioning
