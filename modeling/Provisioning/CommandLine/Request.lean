import Provisioning.Platform
import Provisioning.Session.Handoff

/-! What a command line asks for. Words are read from the left, and the first one that cannot be read, or
that asks for the version or for help, decides. -/

namespace Provisioning.CommandLine

inductive Request where
  | plan (config : String) (asJson : Bool)
  | render (config : String) (form : Form) (output : Option String)
  | cache (config : String) (asJson : Bool)
  | recipes (asJson : Bool)
  | info
deriving DecidableEq, Repr

/-- A request and the platform that is set for it. -/
structure Invocation where
  request : Request
  platform : Option Platform
deriving DecidableEq, Repr

/-- Why no request is read. -/
inductive Stop where
  | version
  | help
  | refused
deriving DecidableEq, Repr

def defaultConfig : String := "provision.lua"

/-! ### Switches -/

inductive Switch where
  | verbose
  | platform
  | help
  | version
  | json
  | format
  | output
deriving DecidableEq, Repr

def Switch.all : List Switch := [.verbose, .platform, .help, .version, .json, .format, .output]

def Switch.letter? : Switch → Option Char
  | .verbose => some 'v'
  | .platform => none
  | .help => some 'h'
  | .version => some 'V'
  | .json => none
  | .format => some 'f'
  | .output => some 'o'

def Switch.word : Switch → String
  | .verbose => "verbose"
  | .platform => "platform"
  | .help => "help"
  | .version => "version"
  | .json => "json"
  | .format => "format"
  | .output => "output"

def Switch.takesValue : Switch → Bool
  | .platform | .format | .output => true
  | _ => false

/-- The commands, each with its switches and with a file to read or without one. -/
inductive Verb where
  | plan
  | render
  | cache
  | recipes
  | info
deriving DecidableEq, Repr

def Verb.all : List Verb := [.plan, .render, .cache, .recipes, .info]

def Verb.name : Verb → String
  | .plan => "plan"
  | .render => "render"
  | .cache => "cache"
  | .recipes => "recipes"
  | .info => "info"

/-- The switches of every command. -/
def commonSwitches : List Switch := [.verbose, .platform, .help]

def Verb.switches : Verb → List Switch
  | .plan | .cache | .recipes => .json :: commonSwitches
  | .render => .format :: .output :: commonSwitches
  | .info => commonSwitches

def Verb.takesConfig : Verb → Bool
  | .plan | .render | .cache => true
  | .recipes | .info => false

/-! ### Words -/

/-- What has been set so far, before or after the command's name. -/
structure Settings where
  verbose : Bool
  platform : Option Platform
  json : Bool
  form : Option Form
  output : Option String
  config : Option String
deriving DecidableEq, Repr

def Settings.empty : Settings := ⟨false, none, false, none, none, none⟩

/-- Sets a switch that has no value. No switch is set twice. -/
def Settings.raise (s : Settings) : Switch → Except Stop Settings
  | .verbose => if s.verbose then .error .refused else .ok { s with verbose := true }
  | .json => if s.json then .error .refused else .ok { s with json := true }
  | .help => .error .help
  | .version => .error .version
  | _ => .error .refused

def readForm? (value : String) : Option Form :=
  if value = "vagrantfile" then some .vagrantfile
  else if value = "json" then some .document
  else none

/-- Sets a switch to a value. A file name is not empty. -/
def Settings.give (s : Settings) (switch : Switch) (value : String) : Except Stop Settings :=
  match switch with
  | .platform =>
    match s.platform, Platform.parse value with
    | none, .ok p => .ok { s with platform := some p }
    | _, _ => .error .refused
  | .format =>
    match s.form, readForm? value with
    | none, some f => .ok { s with form := some f }
    | _, _ => .error .refused
  | .output =>
    match s.output with
    | none => if value.isEmpty then .error .refused else .ok { s with output := some value }
    | some _ => .error .refused
  | _ => .error .refused

/-- A switch whose value is the next word, if the last word was one. -/
structure Progress where
  settings : Settings
  waiting : Option Switch
deriving DecidableEq, Repr

/-- Reads the letters of a word after its dash. A letter that takes a value takes the rest of the word,
with or without an equals sign before it, or the next word if there is no rest. -/
def readLetters (switches : List Switch) (s : Settings) : List Char → Except Stop Progress
  | [] => .ok ⟨s, none⟩
  | c :: rest =>
    match switches.find? (·.letter? = some c) with
    | none => .error .refused
    | some switch =>
      if switch.takesValue then
        match rest with
        | [] => .ok ⟨s, some switch⟩
        | '=' :: value => (s.give switch (String.ofList value)).map (⟨·, none⟩)
        | value => (s.give switch (String.ofList value)).map (⟨·, none⟩)
      else do readLetters switches (← s.raise switch) rest

/-- Reads a long word after its two dashes. -/
def readLong (switches : List Switch) (s : Settings) (word : List Char) : Except Stop Progress :=
  let (name, value) : List Char × Option (List Char) :=
    match Text.splitOnce? '=' word with
    | some (name, value) => (name, some value)
    | none => (word, none)
  match switches.find? (·.word = String.ofList name), value with
  | none, _ => .error .refused
  | some switch, none =>
    if switch.takesValue then .ok ⟨s, some switch⟩ else (s.raise switch).map (⟨·, none⟩)
  | some switch, some value =>
    if switch.takesValue && !value.isEmpty then
      (s.give switch (String.ofList value)).map (⟨·, none⟩)
    else .error .refused

/-- A word as its dashes show it. -/
inductive Shape where
  | plain
  | letters (rest : List Char)
  | long (rest : List Char)
  /-- Two dashes alone: every word after them is plain. -/
  | plainFromHere

def shape (word : String) : Shape :=
  match word.toList with
  | ['-', '-'] => .plainFromHere
  | '-' :: '-' :: rest => .long rest
  | '-' :: c :: rest => .letters (c :: rest)
  | _ => .plain

/-! ### After the command -/

/-- Takes a plain word after the command as its file. -/
def Settings.file (s : Settings) (v : Verb) (word : String) : Except Stop Settings :=
  if v.takesConfig && s.config.isNone && !word.isEmpty then .ok { s with config := some word }
  else .error .refused

/-- Reads the words after the command. -/
def readRest (v : Verb) : Progress → List String → Except Stop Settings
  | ⟨s, none⟩, [] => .ok s
  | ⟨_, some _⟩, [] => .error .refused
  | ⟨s, some switch⟩, word :: rest =>
    match shape word with
    | .plain => do readRest v ⟨← s.give switch word, none⟩ rest
    | _ => .error .refused
  | ⟨s, none⟩, word :: rest =>
    match shape word with
    | .plain => do readRest v ⟨← s.file v word, none⟩ rest
    | .letters cs => do readRest v (← readLetters v.switches s cs) rest
    | .long cs => do readRest v (← readLong v.switches s cs) rest
    | .plainFromHere => rest.foldlM (fun s word => s.file v word) s

def Settings.request (s : Settings) (v : Verb) : Request :=
  let config := s.config.getD defaultConfig
  match v with
  | .plan => .plan config s.json
  | .render => .render config (s.form.getD .vagrantfile) s.output
  | .cache => .cache config s.json
  | .recipes => .recipes s.json
  | .info => .info

/-! ### Before the command -/

def rootSwitches : List Switch := .version :: commonSwitches

/-- The word that asks for help on the command after it. -/
def helpWord : String := "help"

/-- Help is given on the program, on a command and on itself. -/
def readHelp (words : List String) : Stop :=
  match words with
  | [] => .help
  | name :: rest =>
    if name = helpWord ∨ (name ∈ Verb.all.map Verb.name ∧ rest = []) then .help else .refused

/-- The platform of the command's own switch counts more than the one before the command. -/
def readCommand (before : Settings) (word : String) (rest : List String) : Except Stop Invocation :=
  match Verb.all.find? (·.name = word) with
  | some v => do
    let after ← readRest v ⟨Settings.empty, none⟩ rest
    return ⟨after.request v, after.platform.or before.platform⟩
  | none => .error (if word = helpWord then readHelp rest else .refused)

def readRoot : Progress → List String → Except Stop Invocation
  | _, [] => .error .refused
  | ⟨s, some switch⟩, word :: rest =>
    match shape word with
    | .plain => do readRoot ⟨← s.give switch word, none⟩ rest
    | _ => .error .refused
  | ⟨s, none⟩, word :: rest =>
    match shape word with
    | .plain => readCommand s word rest
    | .letters cs => do readRoot (← readLetters rootSwitches s cs) rest
    | .long cs => do readRoot (← readLong rootSwitches s cs) rest
    | .plainFromHere => .error .refused

/-- Reads the words of a command line. -/
def read (words : List String) : Except Stop Invocation := readRoot ⟨Settings.empty, none⟩ words

end Provisioning.CommandLine
