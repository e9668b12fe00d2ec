import Provisioning.Recipe

/-! The recipes that shape the machine itself. -/

namespace Provisioning.Recipe

open Provision

def selectBox (a : Arguments) : Provision Unit := do
  add (.box (← ofArguments (a.string 0 "box")))

def provider (a : Arguments) : Provision Unit := do
  let driver ← ofArguments (a.string 0 "provider")
  let name ← ofArguments (a.string 1 "vm_name")
  add (.provider driver name true)

/-- The host's directory is made when it is missing, and the directive names it as the statement does. A
guest path is bound at most once. -/
def syncedFolder (a : Arguments) : Provision Unit := do
  let folder ← ofArguments (a.table 0 "folder")
  let host ← ofArguments (a.stringField folder "host")
  let guest ← ofArguments (a.stringField folder "guest")
  requireUnbound guest
  ensureDirectory host
  add (.syncedFolder host guest)

def forwardedPort (a : Arguments) : Provision Unit := do
  let ports ← ofArguments (a.table 0 "ports")
  let guest ← ofArguments (a.portField ports "guest")
  let host ← ofArguments (a.portField ports "host")
  add (.forwardedPort guest host)

end Provisioning.Recipe
