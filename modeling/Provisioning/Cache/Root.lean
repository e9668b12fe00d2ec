import Provisioning.Cache.Segment
import Provisioning.Host.FileSystem

/-! The download cache: one directory that the host sees under one path and the guest under another,
with a directory for each URL below it. -/

namespace Provisioning.Cache

/-- The two paths of the cache directory. -/
structure Root where
  host : String
  guest : String
deriving DecidableEq, Repr

/-- The directory of one URL, from both sides. -/
structure Slot where
  url : String
  host : String
  guest : String
deriving DecidableEq, Repr

def Slot.hostFile (s : Slot) (file : String) : String := Host.Path.join s.host file

def Slot.guestFile (s : Slot) (file : String) : String := s.guest ++ "/" ++ file

namespace Root

def slot (r : Root) (url : String) : Slot where
  url := url
  host := Host.Path.join r.host (Segment.encode url)
  guest := r.guest ++ "/" ++ Segment.encode url

/-- A URL whose directory is in the cache, with the files there. -/
structure Holding where
  url : String
  path : String
  files : List String
deriving DecidableEq, Repr

/-- The names of the plain files of a directory, sorted. -/
def plainFiles (entries : List (String × Host.Entry)) : List String :=
  (entries.filterMap fun (name, e) =>
    match e with
    | .file _ => some name
    | _ => none).mergeSort (· ≤ ·)

/-- What the host's side of the cache holds, sorted by URL. A cache directory that is missing holds
nothing, and an entry that is no directory, or whose name no URL has, is passed over. -/
def holdings (r : Root) (m : Host.Machine) : Except Host.IoError (List Holding) :=
  match m.list r.host with
  | .error .notFound => .ok []
  | .error e => .error e
  | .ok entries => do
    let found ← entries.filterMapM fun (name, e) =>
      match e, Segment.decode? name with
      | .directory, some url => do
        let path := Host.Path.join r.host name
        let inside ← m.list path
        return some (Holding.mk url path (plainFiles inside))
      | _, _ => return none
    return found.mergeSort (·.url ≤ ·.url)

end Root

end Provisioning.Cache
