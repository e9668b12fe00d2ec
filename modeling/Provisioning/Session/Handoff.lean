import Provisioning.Session.Vagrantfile
import Provisioning.Host.FileSystem

/-! Handing a finished session over: the form that its text has, and why a receiver does not get it. -/

namespace Provisioning

/-- The forms in which a session is handed over. -/
inductive Form where
  | vagrantfile
  | document
deriving DecidableEq, Repr

def Form.text : Form → Session → String
  | .vagrantfile, s => s.vagrantfile
  | .document, s => s.document

inductive HandoffError where
  | document (cause : Host.IoError)
  | write (cause : Host.IoError)
  | render
deriving DecidableEq, Repr

def HandoffError.message : HandoffError → String
  | .document e => "failed to serialize session: " ++ e.message
  | .write e => "failed to write session: " ++ e.message
  | .render => "failed to render session"

namespace Session

/-- Hands a session over to a receiver that may refuse it. -/
def handOver (form : Form) (receive : String → Except Host.IoError Unit) (s : Session) :
    Except HandoffError Unit :=
  (receive (form.text s)).mapError fun e =>
    match form with
    | .vagrantfile => .write e
    | .document => .document e

/-- Hands the Vagrantfile of a session over to a receiver that says no more than that it refuses. -/
def print (receive : String → Except Unit Unit) (s : Session) : Except HandoffError Unit :=
  (receive s.vagrantfile).mapError fun _ => .render

end Session

end Provisioning
