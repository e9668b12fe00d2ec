import Provisioning.Recipe.Install
import Provisioning.Recipe.Project
import Provisioning.Recipe.Setup

/-! The shipped registry. What shapes the machine, and commands, directories and reboots, are there on
every platform; the rest is for a Mac. -/

namespace Provisioning.Recipe

/-- Everywhere. -/
def neutral : List (String × String × Recipe) :=
  [("Setup", "Box", .steps selectBox), ("Setup", "Provider", .steps provider),
    ("Setup", "SyncedFolder", .steps syncedFolder), ("Setup", "ForwardedPort", .steps forwardedPort),
    ("Run", "Shell", .steps shellCommand), ("Reboot", "Vm", .steps reboot), ("Dir", "In", .scope)]

/-- On a Mac only. -/
def macOnly : List (String × String × Recipe) :=
  [("Git", "Clone", .steps cloneRepository), ("Npm", "Install", .steps npmInstall),
    ("Bundle", "Install", .steps bundleInstall), ("Pip", "Install", .steps pipInstall),
    ("Virtualenv", "Create", .steps createVirtualenv),
    ("Install", "OsxCommandLineTools", .steps commandLineTools),
    ("Install", "OsxCommandLineToolsMavericks", .steps commandLineToolsMavericks),
    ("Install", "OsxCommandLineToolsMountainLion", .steps commandLineToolsMountainLion),
    ("Install", "Gpg", .steps gpg), ("Install", "Git", .steps git),
    ("Install", "GitHubForMac", .steps gitHubForMac), ("Install", "Node", .steps node),
    ("Install", "TextMate", .steps textMate), ("Install", "Homebrew", .steps homebrew),
    ("Install", "ITerm2", .steps iTerm2), ("Install", "HerokuToolbelt", .steps herokuToolbelt),
    ("Install", "Qt", .steps qt), ("Install", "PhantomJS", .steps phantomJs),
    ("Install", "Rails", .steps (gem "rails")), ("Install", "Bundler", .steps (gem "bundler")),
    ("Install", "Foundation", .steps (gem "foundation")),
    ("Install", "Bower", .steps (npmPackage "bower")),
    ("Install", "GruntCli", .steps (npmPackage "grunt-cli")), ("Install", "Python3", .steps python3),
    ("Install", "Virtualenv", .steps virtualenv), ("Install", "PostgreSQL", .steps postgreSql),
    ("Install", "Ruby", .steps ruby)]

/-- The bindings of recipes on one platform. -/
def bind (platform : Platform) (recipes : List (String × String × Recipe)) : List (Binding Recipe) :=
  recipes.map fun (subject, action, recipe) => ⟨subject, action, platform, recipe⟩

/-- The registry that builds use. -/
def shipped : Registry Recipe :=
  ⟨bind .osx neutral ++ bind .linux neutral ++ bind .osx macOnly⟩

end Provisioning.Recipe
