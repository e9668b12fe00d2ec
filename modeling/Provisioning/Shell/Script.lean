import Provisioning.Shell.Quoting
import Provisioning.Text.Blank

/-! The shell texts that a build emits. -/

namespace Provisioning.Shell

/-- `code` between a change into `directory` and the change back. The script stops at the first
command that fails. -/
def inDirectory (code directory : String) : String :=
  "set -e\npushd " ++ escapePath directory ++ " > /dev/null\n"
    ++ String.ofList (Text.trimEnd code.toList) ++ "\npopd > /dev/null\n"

/-- Prints `message` between two rules. -/
def banner (message : String) : String :=
  "echo --------------- " ++ escapeBanner message ++ " ---------------"

/-- Fetches `url` into `target` unless `target` is there already. -/
def download (url target : String) : String :=
  "[ -f " ++ doubleQuote target ++ " ] || curl -fL --create-dirs -o " ++ doubleQuote target ++ " "
    ++ doubleQuote url

/-- The package of a mounted volume that is installed. -/
inductive PackageChoice where
  | named (file : String)
  | firstMatch
deriving DecidableEq, Repr

/-- The directory below which disk images are mounted. -/
def mountRoot : String := "/Volumes/_vm_provisioning_"

/-- The directory that archives are unpacked into. -/
def applications : String := "/Applications"

def volume (label : String) : String := mountRoot ++ "/" ++ escapePath label

/-- The package as a word of the script; the first match is found by the shell. -/
def PackageChoice.word (volume : String) : PackageChoice → String
  | .named file => volume ++ "/" ++ escapePath file
  | .firstMatch => "\"$(ls -d " ++ volume ++ "/*.*pkg | head -n 1)\""

/-- Mounts the disk image, installs one package of it and unmounts it. A volume of the same label
that is still mounted is unmounted first. -/
def installMounted (image label : String) (package : PackageChoice) : String :=
  "hdiutil detach " ++ volume label ++ " > /dev/null 2>&1 || true\n"
    ++ "hdiutil attach " ++ doubleQuote image ++ " -mountroot " ++ mountRoot ++ " -nobrowse\n"
    ++ "sudo installer -pkg " ++ package.word (volume label) ++ " -target /\n"
    ++ "hdiutil detach " ++ volume label

def installFlat (package : String) : String :=
  "installer -pkg " ++ doubleQuote package ++ " -target /"

def unpackTar (archive : String) : String :=
  "tar -x -C " ++ applications ++ " -f " ++ doubleQuote archive

def unpackZip (archive : String) : String :=
  "unzip -qq -o -d " ++ applications ++ " " ++ doubleQuote archive

end Provisioning.Shell
