import Provisioning.Recipe

/-! The recipes that install software on a Mac. -/

namespace Provisioning.Recipe

open Provision

def mavericksTools : Provision Unit :=
  install (.mounted
    "https://s3.amazonaws.com/OHSNAP/command_line_tools_os_x_mavericks_for_xcode__late_october_2013.dmg"
    "Command Line Developer Tools" (.named "Command Line Tools (OS X 10.9).pkg"))

def commandLineTools (_ : Arguments) : Provision Unit := do
  banner "Installing OS X Command Line Tools"
  mavericksTools

def commandLineToolsMavericks (_ : Arguments) : Provision Unit := do
  banner "Installing OS X Command Line Tools for Mavericks"
  mavericksTools

def commandLineToolsMountainLion (_ : Arguments) : Provision Unit := do
  banner "Installing OS X Command Line Tools for Mountain Lion"
  install (.mounted
    "http://devimages.apple.com/downloads/xcode/command_line_tools_for_xcode_os_x_mountain_lion_april_2013.dmg"
    "Command Line Tools (Mountain Lion)" .firstMatch)

/-- The files of a key ring. -/
def keyFiles : List String :=
  ["pubring.gpg", "secring.gpg", "trustdb.gpg", "pubring.gpg~", "random_seed"]

def gpg (_ : Arguments) : Provision Unit := do
  banner "Installing gpg, gpg-agent, and copying gpg keys from vm host"
  install (.mounted "https://releases.gpgtools.org/GPG%20Suite%20-%202013.10.22.dmg" "GPG Suite"
    (.named "Install.pkg"))
  run "sudo chown -R vagrant ~/.gnupg"
  keyFiles.forM fun key => copyFile ("~/.gnupg/" ++ key) (".gnupg/" ++ key)

def git (_ : Arguments) : Provision Unit := do
  banner "Installing git and copying .gitconfig from vm host"
  install (.mounted
    "https://git-osx-installer.googlecode.com/files/git-1.8.4.2-intel-universal-snow-leopard.dmg"
    "Git 1.8.4.2 Snow Leopard Intel Universal"
    (.named "git-1.8.4.2-intel-universal-snow-leopard.pkg"))
  copyFile "~/.gitconfig" ".gitconfig"

def gitHubForMac (_ : Arguments) : Provision Unit := do
  banner "Installing GitHub for Mac"
  install (.zip "https://central.github.com/mac/latest")

def node (_ : Arguments) : Provision Unit := do
  banner "Installing nodejs"
  install (.flat "http://nodejs.org/dist/v0.10.26/node-v0.10.26.pkg")

def textMate (_ : Arguments) : Provision Unit := do
  banner "Installing TextMate"
  install (.tar "https://api.textmate.org/downloads/release")

def homebrew (_ : Arguments) : Provision Unit := do
  banner "Installing Homebrew"
  run ("ruby -e \"$(curl -fsSL https://raw.githubusercontent.com/Homebrew/install/master/install)\"\n"
    ++ "echo export PATH='/usr/local/bin:$PATH' >> ~/.bash_profile\n"
    ++ "brew update\nbrew tap homebrew/versions\nbrew tap homebrew/dupes")

def iTerm2 (_ : Arguments) : Provision Unit := do
  banner "Installing iTerm2"
  install (.zip "https://iterm2.com/downloads/stable/iTerm2_v2_0.zip")

def herokuToolbelt (_ : Arguments) : Provision Unit := do
  banner "Installing Heroku Toolbelt"
  install (.flat "https://toolbelt.heroku.com/download/osx")

def qt (_ : Arguments) : Provision Unit := do
  banner "Installing Qt"
  run "brew install qt"

def phantomJs (_ : Arguments) : Provision Unit := do
  banner "Installing PhantomJS"
  run "brew install phantomjs"

/-- The version that the first argument asks for. -/
def version? (a : Arguments) : Provision (Option String) := ofArguments (a.text? 0 "version")

def gem (name : String) (a : Arguments) : Provision Unit := do
  match ← version? a with
  | some version =>
    banner ("installing " ++ name ++ " (" ++ version ++ ")")
    run ("gem install --no-rdoc --no-ri " ++ name ++ " -v " ++ Shell.doubleQuote version)
  | none =>
    banner ("installing " ++ name ++ " (latest)")
    run ("gem install --no-rdoc --no-ri " ++ name)

/-- A package of npm, the latest one when no version is given. -/
def npmPackage (name : String) (a : Arguments) : Provision Unit := do
  let version := (← version? a).getD "latest"
  banner ("installing " ++ name ++ " (" ++ version ++ ")")
  run ("npm install " ++ name ++ "@" ++ version)

def python3 (_ : Arguments) : Provision Unit := do
  banner "Installing Python3"
  install (.mounted "https://www.python.org/ftp/python/3.4.1/python-3.4.1-macosx10.6.dmg" "Python 3.4.1"
    .firstMatch)

def virtualenv (_ : Arguments) : Provision Unit := do
  banner "Installing Python's virtualenv"
  let (archive, _) ← fetch
    "https://pypi.python.org/packages/source/v/virtualenv/virtualenv-1.11.6.tar.gz"
    "virtualenv-1.11.6.tar.gz"
  run ("tar xvfz " ++ Shell.doubleQuote archive ++ "\npushd virtualenv-1.11.6\n"
    ++ "sudo python setup.py install\npopd\nsudo rm -rf virtualenv-1.11.6")

/-- Without a version the latest formula is installed, whose name has no number. -/
def postgreSql (a : Arguments) : Provision Unit := do
  let version := (← version? a).getD ""
  banner "Installing PostgreSQL"
  run ("brew install postgresql" ++ version ++ "\nrm -rf /usr/local/var/postgres/\n"
    ++ "initdb /usr/local/var/postgres -E UTF8\nmkdir -p ~/Library/LaunchAgents\n"
    ++ "ln -sfv /usr/local/opt/postgresql" ++ version ++ "/*.plist ~/Library/LaunchAgents")

def ruby (a : Arguments) : Provision Unit := do
  let version := (← version? a).getD "2.1.2"
  banner ("Installing Ruby (" ++ version ++ ")")
  run ("brew install apple-gcc42\nbrew install rbenv\nbrew install ruby-build\nrbenv install "
    ++ version ++ "\nrbenv global " ++ version ++ "\nrbenv rehash\n"
    ++ "echo 'if which rbenv > /dev/null; then eval \"$(rbenv init -)\"; fi' >> ~/.bash_profile")

end Provisioning.Recipe
