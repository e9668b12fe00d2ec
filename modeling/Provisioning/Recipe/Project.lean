import Provisioning.Recipe

/-! The recipes of a project: its sources, what it depends on, and commands in its directories. -/

namespace Provisioning.Recipe

open Provision

def cloneRepository (a : Arguments) : Provision Unit := do
  let url ← ofArguments (a.string 0 "url")
  let dir ← ofArguments (a.string 1 "dir")
  banner ("git clone " ++ url ++ " " ++ dir)
  run ("git clone " ++ Shell.doubleQuote url ++ " " ++ Shell.doubleQuote dir)

/-- Shows `message` and runs `code` in the directory of the first argument, if there is one. -/
def inOptionalDirectory (message code : String) (a : Arguments) : Provision Unit := do
  let dir ← ofArguments (a.text? 0 "dir")
  banner message
  runIn dir code

def npmInstall : Arguments → Provision Unit :=
  inOptionalDirectory "running 'npm install'" "npm install"

def bundleInstall : Arguments → Provision Unit :=
  inOptionalDirectory "running 'bundle install'" "bundle install"

def pipInstall : Arguments → Provision Unit :=
  inOptionalDirectory "Running pip install -r requirements.txt" "bin/pip install -r requirements.txt"

def createVirtualenv : Arguments → Provision Unit :=
  inOptionalDirectory "Running virtualenv"
    "virtualenv --no-site-packages --python=`which python3` env"

/-- One argument is a command, two are a directory and a command. -/
def shellCommand (a : Arguments) : Provision Unit := do
  if a.size < 2 then
    run (← ofArguments (a.string 0 "command"))
  else
    let dir ← ofArguments (a.string 0 "dir")
    let command ← ofArguments (a.string 1 "command")
    runIn (some dir) command

def reboot (_ : Arguments) : Provision Unit := do
  banner "Rebooting"
  run "sudo reboot"

end Provisioning.Recipe
