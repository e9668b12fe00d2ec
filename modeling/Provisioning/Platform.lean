import Provisioning.Text.Ascii

/-! The operating systems of a provisioned machine. -/

namespace Provisioning

inductive Platform where
  | osx
  | linux
deriving DecidableEq, Ord, Repr

namespace Platform

def all : List Platform := [.osx, .linux]

def name : Platform → String
  | .osx => "osx"
  | .linux => "linux"

/-- A text that names no platform. -/
structure Unknown where
  text : String
deriving DecidableEq, Repr

def Unknown.message (e : Unknown) : String :=
  "unknown guest platform '" ++ e.text ++ "' (expected one of: osx, linux)"

/-- Reads a platform in any case of letters; `macos` and `darwin` are other names of `osx`. -/
def parse (text : String) : Except Unknown Platform :=
  let word := String.ofList (Text.lower text.toList)
  if word = "osx" ∨ word = "macos" ∨ word = "darwin" then .ok .osx
  else if word = "linux" then .ok .linux
  else .error ⟨text⟩

end Platform

end Provisioning
