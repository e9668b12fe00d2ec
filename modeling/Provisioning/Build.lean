import Provisioning.Session
import Provisioning.Cache.Root
import Provisioning.Platform
import Provisioning.Shell.Script

/-! A build in progress: the session so far, the directories that are open and the downloads that were
asked for. Everything that reaches the session does so through `Build.add`. -/

namespace Provisioning

structure Build where
  platform : Platform
  cache : Cache.Root
  session : Session
  /-- The open directories, the innermost first. -/
  directories : List String
  /-- The downloads that were asked for, by URL and file name. -/
  requested : List (String × String)
deriving DecidableEq, Repr

/-- What a request for a download finds. -/
inductive FetchStatus where
  /-- The host's cache holds the file. -/
  | present
  /-- A fragment that downloads the file was added. -/
  | scheduled
  /-- The same file was asked for earlier in this build. -/
  | alreadyRequested
deriving DecidableEq, Repr

def FetchStatus.name : FetchStatus → String
  | .present => "present"
  | .scheduled => "scheduled"
  | .alreadyRequested => "already_requested"

namespace Build

def start (platform : Platform) (cache : Cache.Root) : Build :=
  ⟨platform, cache, .empty, [], []⟩

/-- The directory of new fragments. -/
def currentDirectory (b : Build) : String := b.directories.headD "."

def add (b : Build) (d : Directive) : Build := { b with session := b.session.push d }

/-- Adds `code` as a script for the current directory. -/
def emit (b : Build) (privileged : Bool) (code : String) : Build :=
  b.add (.shell ⟨Shell.inDirectory code b.currentDirectory, privileged, b.currentDirectory⟩)

def run (b : Build) (code : String) : Build := b.emit false code

def runPrivileged (b : Build) (code : String) : Build := b.emit true code

def banner (b : Build) (message : String) : Build := b.run (Shell.banner message)

def copyFile (b : Build) (host guest : String) : Build := b.add (.fileCopy host guest)

def enter (b : Build) (directory : String) : Build :=
  { b with directories := directory :: b.directories }

def depth (b : Build) : Nat := b.directories.length

/-- Closes directories until `depth` are open. -/
def leaveTo (b : Build) (depth : Nat) : Build :=
  { b with directories := b.directories.drop (b.directories.length - depth) }

/-- Adds one fragment for `directory`, or for the current directory if there is none. -/
def runIn (b : Build) (directory : Option String) (code : String) : Build :=
  match directory with
  | none => b.run code
  | some directory => ((b.enter directory).run code).leaveTo b.depth

/-- The path of a cached file in the guest. -/
def guestFile (b : Build) (url file : String) : String := (b.cache.slot url).guestFile file

/-- Whether the host's cache holds a file. -/
def isCached (b : Build) (m : Host.Machine) (url file : String) : Bool :=
  m.pathExists ((b.cache.slot url).hostFile file)

/-- Makes a file of the cache available in the guest. The first request of a build looks at the host
and adds a download if the file is not there; later requests for the same file add nothing. -/
def fetch (b : Build) (m : Host.Machine) (url file : String) : FetchStatus × Build :=
  if (url, file) ∈ b.requested then (.alreadyRequested, b)
  else
    let b := { b with requested := (url, file) :: b.requested }
    if b.isCached m url file then (.present, b)
    else (.scheduled, b.run (Shell.download url (b.guestFile url file)))

end Build

/-! ### Installing -/

/-- What is installed from a download. -/
inductive Installation where
  | mounted (url label : String) (package : Shell.PackageChoice)
  | flat (url : String)
  | tar (url : String)
  | zip (url : String)
deriving DecidableEq, Repr

namespace Installation

def url : Installation → String
  | .mounted url _ _ => url
  | .flat url => url
  | .tar url => url
  | .zip url => url

/-- The name of the download in the cache. -/
def file : Installation → String
  | .mounted .. => "install.dmg"
  | .flat _ => "install.pkg"
  | .tar _ => "install.tar"
  | .zip _ => "install.zip"

def privileged : Installation → Bool
  | .mounted .. => false
  | .flat _ => true
  | .tar _ => true
  | .zip _ => false

/-- The script that installs the file at `path`. -/
def script (path : String) : Installation → String
  | .mounted _ label package => Shell.installMounted path label package
  | .flat _ => Shell.installFlat path
  | .tar _ => Shell.unpackTar path
  | .zip _ => Shell.unpackZip path

end Installation

/-- Makes the download available first. -/
def Build.install (b : Build) (m : Host.Machine) (i : Installation) : Build :=
  (b.fetch m i.url i.file).2.emit i.privileged (i.script (b.guestFile i.url i.file))

end Provisioning
