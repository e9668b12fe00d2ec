import Provisioning.Config.Compile
import Provisioning.Config.Conversion
import Provisioning.Config.Grammar
import Provisioning.Config.Machine
import Provisioning.Config.Routine

/-! The global names of a configuration, what a name means that nobody has defined, and the functions
behind the names. -/

namespace Provisioning.Config

/-- How a function without code calls a value. Where errors are watched, one that is raised in the
innermost call that is allowed becomes another one. -/
abbrev Caller := (watched : Bool) → Value → List Value → Routine (List Value)

/-! ### The memory at the start -/

namespace Builtin

/-- The functions with a place of their own; the iterator of items has no name. -/
def placed : List (Builtin × Option String) :=
  [(.ipairsNext, none), (.assert, some "assert"), (.changeDirectory, some "cd"),
    (.collectGarbage, some "collectgarbage"), (.doFile, some "dofile"), (.error, some "error"),
    (.getMetatable, some "getmetatable"), (.ipairs, some "ipairs"), (.load, some "load"),
    (.loadFile, some "loadfile"), (.next, some "next"), (.pairs, some "pairs"), (.pcall, some "pcall"),
    (.print, some "print"), (.rawEqual, some "rawequal"), (.rawGet, some "rawget"),
    (.rawLength, some "rawlen"), (.rawSet, some "rawset"), (.require, some "require"),
    (.select, some "select"), (.setMetatable, some "setmetatable"), (.toNumber, some "tonumber"),
    (.toText, some "tostring"), (.type, some "type"), (.warn, some "warn"), (.xpcall, some "xpcall")]

/-- The function of a builtin in the first memory. -/
def address (b : Builtin) : Address := placed.findIdx (·.1 = b)

end Builtin

/-- The names of the tables of functions that every configuration finds. -/
def libraries : List String := ["package", "coroutine", "table", "io", "os", "string", "math", "utf8"]

/-- The table of globals refers to itself and to one table for each library, which is empty here: no function of `io` or
`os` changes a file or ends the process. -/
def globalTable : Table :=
  let functions := Builtin.placed.zipIdx.filterMap fun ((_, name), i) =>
    name.map fun name => (Key.text name, Value.function i)
  let tables := libraries.zipIdx.map fun (name, i) => (Key.text name, Value.table (i + 1))
  let others := [(Key.text "_G", Value.table Memory.globals), (Key.text "_VERSION", Value.text "Lua 5.4")]
  (functions ++ tables ++ others).foldl (fun t (k, v) => t.set k v) .empty

def Memory.initial : Memory :=
  { Memory.empty with
    tables := (globalTable :: libraries.map fun _ => Table.empty).toArray
    functions := (Builtin.placed.map fun (b, _) => Callable.builtin b).toArray
    cells := #[.own (.table Memory.globals)]
    top := 3 }

namespace Routine

/-! ### Looking up and setting -/

def newFunction (f : Callable) : Routine Value := do return .function (← ofStep (·.newFunction f))

/-- The value of a global name that is not defined: a name with a capital is a subject, a flattened name
of a registered subject is an action, and any other name is `nil`. -/
def undefined (r : Registry Recipe) (name : Value) : Routine Value :=
  match name with
  | .string s => do
    let name ← ofExcept (Memory.text s)
    if (name.toList.headD ' ').isUpper then newFunction (.subject name)
    else
      match r.unflatten? name with
      | some (subject, action) => newFunction (.action subject action)
      | none => pure .nil
  | _ => pure .nil

/-- The value of a table under a key without a look at what an undefined name means. -/
def rawValue (a : Address) (key : Value) : Routine Value := ofStep (·.lookAt a key)

/-- Sets the value of a table under a key. -/
def setRaw (a : Address) (key v : Value) : Routine Unit :=
  match Key.ofValue? key with
  | some k => modify (·.setTable a k v)
  | none => complain 0 (Machine.noKey key)

/-! ### Statements -/

/-- Makes a statement with values of the language. -/
def statement (call : Caller) (subject : String) (action : Option String) (values : List Value) :
    Routine (List Value) := do
  let converted ← ofStep fun m =>
    let (result, looks) := (m.arguments values).run.run []
    (result, looks.reverse.foldl Memory.looked m)
  let (arguments, block) ← ofExcept converted
  state ⟨subject, action, arguments⟩ (block.map fun a => do
    let _ ← call true (.function a) []
    pure ())
  return []

/-- The action that the first of a subject's values names, if it names one. -/
def actionName (subject : String) : List Value → Except Fault (Option String)
  | [] => .ok none
  | .nil :: _ => .ok none
  | .string s :: _ => (Memory.text s).map some
  | v :: _ => .error (.actionNotString subject v.typeName)

def subjectStatement (call : Caller) (subject : String) (values : List Value) :
    Routine (List Value) := do
  statement call subject (← ofExcept (actionName subject values)) values.tail

/-- The text of a directory: a string or a number. -/
def directoryText (v : Value) : Except Fault String :=
  match v.string? with
  | some s => Memory.textOr .directoryNotText s
  | none => .error (.directoryNotString v.typeName)

/-- Runs a function with a directory open. What comes after the two arguments is left out. -/
def changeDirectory (call : Caller) (values : List Value) : Routine (List Value) := do
  let directory ← ofExcept (directoryText (values.headD .nil))
  match values.tail.headD .nil with
  | .function a =>
    state ⟨"Dir", some "In", [.string directory]⟩ (some do
      let _ ← call true (.function a) []
      pure ())
    return []
  | v => fault (.bodyNotFunction v.typeName)

/-! ### Arguments of functions of the language -/

variable {α : Type}

/-- Raises an error about the argument at a position from one on. -/
def badArgument (name : String) (position : Nat) (reason : String) : Routine α :=
  complain 1 ("bad argument #" ++ Decimal.digitText position ++ " to '" ++ name ++ "' (" ++ reason ++ ")")

def argumentSort (values : List Value) (position : Nat) : String :=
  match values[position - 1]? with
  | some v => v.sortName
  | none => "no value"

def expected (name : String) (position : Nat) (sort : String) (values : List Value) : Routine α :=
  badArgument name position (sort ++ " expected, got " ++ argumentSort values position)

/-- An argument that has to be there. -/
def anyArgument (name : String) (position : Nat) (values : List Value) : Routine Value :=
  match values[position - 1]? with
  | some v => pure v
  | none => badArgument name position "value expected"

def tableArgument (name : String) (position : Nat) (values : List Value) : Routine Address :=
  match values[position - 1]? with
  | some (.table a) => pure a
  | _ => expected name position "table" values

/-- A string, or the text of a number. -/
def stringArgument (name : String) (position : Nat) (values : List Value) : Routine Bytes :=
  match values[position - 1]?.bind Value.string? with
  | some s => pure s
  | none => expected name position "string" values

/-- A string, or the text of a number, that may be missing. -/
def stringArgument? (name : String) (position : Nat) (values : List Value) : Routine (Option Bytes) :=
  match values[position - 1]? with
  | none => pure none
  | some .nil => pure none
  | some _ => do return some (← stringArgument name position values)

/-- A number that is an integer, or the number of a string that is one. -/
def integerArgument (name : String) (position : Nat) (values : List Value) : Routine Int64 :=
  match values[position - 1]?.bind Value.number? with
  | some (.integer n) => pure n
  | some (.number x) =>
    match wholeNumber? x with
    | some n => pure n
    | none => badArgument name position "number has no integer representation"
  | _ => expected name position "number" values

def integerArgumentOr (default : Int64) (name : String) (position : Nat) (values : List Value) :
    Routine Int64 :=
  match values[position - 1]? with
  | none => pure default
  | some .nil => pure default
  | some _ => integerArgument name position values

/-! ### Errors -/

/-- Raises the first of the values. A string is given the position of the call that is so many calls
further out as the second one tells, the caller's if there is none. -/
def raiseError (values : List Value) : Routine α := do
  let level ← integerArgumentOr 1 "error" 2 values
  let level := level.toInt32.toInt
  match values.headD .nil with
  | .string s =>
    if 0 < level then
      let position := (← get).position level.toNat
      raise (.string (Text.utf8 position ++ s))
    else raise (.string s)
  | v => raise v

def assertTrue : List Value → Routine (List Value)
  | [] => badArgument "assert" 1 "value expected"
  | v :: rest =>
    if v.truth then pure (v :: rest) else raiseError [rest.headD (.text "assertion failed!")]

/-- Calls a function and tells whether it raised a value. -/
def protectedCall (call : Caller) : List Value → Routine (List Value)
  | [] => badArgument "pcall" 1 "value expected"
  | f :: values => do
    match ← attempt (call false f values) with
    | .ok results => return .boolean true :: results
    | .error v => return [.boolean false, v]

/-- Calls a function, and another one for a value that it raises. -/
def handledCall (call : Caller) : List Value → Routine (List Value)
  | f :: .function h :: values => do
    match ← attempt (call true f values) with
    | .ok results => return .boolean true :: results
    | .error v =>
      match ← attempt (call true (.function h) [v]) with
      | .ok results => return [.boolean false, results.headD .nil]
      | .error w => return [.boolean false, w]
  | values => expected "xpcall" 2 "function" values

/-! ### Programs -/

/-- The function of a program, or why there is none. -/
def loaded (source : String) (text : Bytes) : Routine (List Value) := do
  let refused (message : String) : Routine (List Value) := pure [.nil, .text message]
  match Text.ofUtf8? text with
  | none => refused (source ++ ": malformed program")
  | some text =>
    match Program.ofText text with
    | .error .malformed => refused (source ++ ": malformed program")
    | .error .tooDeep => refused Machine.calls
    | .ok p =>
      match p.code? source with
      | none => refused (source ++ ": malformed program")
      | some code =>
        let a ← ofStep (·.newCell (.table Memory.globals))
        return [← newFunction (.closure code #[a])]

/-- The pieces of a text that a function gives one after another, up to nothing or an empty piece. -/
def pieces (call : Caller) (f : Value) : Routine Bytes :=
  repeatUntil [] fun before => do
    match ← call false f [] with
    | .string [] :: _ => return .inr before
    | .string s :: _ => return .inl (before ++ s)
    | .nil :: _ => return .inr before
    | [] => return .inr before
    | v :: _ =>
      match v.string? with
      | some s => return .inl (before ++ s)
      | none => raise (.text "reader function must return a string")

/-- The function of a program that is a string or that a function gives in pieces. -/
def loadProgram (call : Caller) (values : List Value) : Routine (List Value) := do
  let _ ← stringArgument? "load" 3 values
  match values.headD .nil with
  | .function a =>
    let _ ← stringArgument? "load" 2 values
    match ← attempt (pieces call (.function a)) with
    | .ok text => loaded "(load)" text
    | .error v => return [.nil, v]
  | v =>
    match v.string? with
    | some text =>
      let _ ← stringArgument? "load" 2 values
      loaded ("[string \"" ++ Memory.shown text ++ "\"]") text
    | none => expected "load" 1 "function" values

/-! ### Functions of the language -/

/-- The values from a position on, counted from the last one if it is negative. -/
def selectFrom (values : List Value) : Routine (List Value) := do
  match values with
  | .string (0x23 :: _) :: rest => return [.integer (Int64.ofNat rest.length)]
  | values =>
    let n := (← integerArgument "select" 1 values).toInt
    let count : Int := values.length
    let start := if n < 0 then count + n else min n count
    if start < 1 then badArgument "select" 1 "index out of range" else return values.drop start.toNat

/-- The number that digits of a base write. -/
def digitsValue? (base : Nat) (cs : List Char) : Option Nat :=
  let digit? (c : Char) : Option Nat :=
    let n :=
      if c.isDigit then c.toNat - '0'.toNat
      else if c.isAlpha then c.toLower.toNat - 'a'.toNat + 10
      else base
    if n < base then some n else none
  if cs.isEmpty then none else cs.foldlM (fun n c => (digit? c).map (n * base + ·)) 0

def toNumber (values : List Value) : Routine (List Value) := do
  match values.tail.headD .nil with
  | .nil =>
    match ← anyArgument "tonumber" 1 values with
    | .integer n => return [.integer n]
    | .number x => return [.number x]
    | v => return [v.number?.getD .nil]
  | _ =>
    let base := (← integerArgument "tonumber" 2 values).toInt
    match values.headD .nil with
    | .string s =>
      if base < 2 ∨ 36 < base then badArgument "tonumber" 2 "base out of range"
      else
        let cs := Numeral.trim (s.map fun b => Char.ofNat b.toNat)
        let (negative, digits) :=
          match cs with
          | '-' :: rest => (true, rest)
          | rest => (false, rest)
        match digitsValue? base.toNat digits with
        | some n => return [.integer (Int64.ofInt (if negative then -(n : Int) else n))]
        | none => return [.nil]
    | _ => expected "tonumber" 1 "string" values

/-- The pair after a key. -/
def nextPair (values : List Value) : Routine (List Value) := do
  let a ← tableArgument "next" 1 values
  let pairs := ((← get).table a).pairs
  let rest : Option (List (Key × Value)) :=
    match Key.ofValue? (values.tail.headD .nil) with
    | none => if (values.tail.headD .nil).isNil then some pairs else none
    | some k =>
      match pairs.dropWhile (·.1 ≠ k) with
      | [] => none
      | _ :: rest => some rest
  match rest with
  | none => complain 0 "invalid key to 'next'"
  | some [] => return [.nil]
  | some ((k, v) :: _) => return [k.toValue, v]

def setMetatable (values : List Value) : Routine (List Value) := do
  let a ← tableArgument "setmetatable" 1 values
  match values[1]? with
  | some .nil => return [.table a]
  | some (.table _) => return [.table a]
  | _ => expected "setmetatable" 2 "nil or table" values

/-- What the collector of what is no longer used may be asked for, with the number of integers that may
follow. -/
def collectorOptions : List (String × Nat) :=
  [("stop", 0), ("restart", 0), ("collect", 0), ("count", 0), ("step", 1), ("setpause", 1),
    ("setstepmul", 1), ("isrunning", 0), ("generational", 2), ("incremental", 3)]

def collectGarbage (values : List Value) : Routine (List Value) := do
  let option := (← stringArgument? "collectgarbage" 1 values).getD (Text.utf8 "collect")
  match collectorOptions.find? fun (name, _) => Text.utf8 name = option with
  | none => badArgument "collectgarbage" 1 ("invalid option '" ++ Memory.shown option ++ "'")
  | some (_, count) =>
    let _ ← (List.range count).mapM fun i => integerArgumentOr 0 "collectgarbage" (i + 2) values
    return [.integer 0]

/-- Calls a builtin; `look` finds what an undefined name means. -/
def callBuiltin (look : Value → Routine Value) (call : Caller) (b : Builtin) (values : List Value) :
    Routine (List Value) := do
  match b with
  | .assert => assertTrue values
  | .changeDirectory => changeDirectory call values
  | .collectGarbage => collectGarbage values
  | .doFile =>
    let _ ← stringArgument? "dofile" 1 values
    raise (.text "cannot open file")
  | .error => raiseError values
  | .getMetatable =>
    let _ ← anyArgument "getmetatable" 1 values
    return [.nil]
  | .ipairs => return [.function Builtin.ipairsNext.address, ← anyArgument "ipairs" 1 values, .integer 0]
  | .ipairsNext =>
    let n := (← integerArgument "for iterator" 2 values) + 1
    let v ←
      match values.headD .nil with
      | .table a => do
        let v ← rawValue a (.integer n)
        if v.isNil && a == Memory.globals then look (.integer n) else pure v
      | .string _ => pure .nil
      | t => complain 0 (Machine.cannot "index" t.sortName "")
    return if v.isNil then [.nil] else [.integer n, v]
  | .load => loadProgram call values
  | .loadFile =>
    let _ ← stringArgument? "loadfile" 1 values
    let _ ← stringArgument? "loadfile" 2 values
    return [.nil, .text "cannot open file"]
  | .next => nextPair values
  | .pairs => return [.function Builtin.next.address, ← anyArgument "pairs" 1 values, .nil]
  | .pcall => protectedCall call values
  | .print => return []
  | .rawEqual =>
    let v ← anyArgument "rawequal" 1 values
    return [.boolean (v.same (← anyArgument "rawequal" 2 values))]
  | .rawGet =>
    let a ← tableArgument "rawget" 1 values
    return [← rawValue a (← anyArgument "rawget" 2 values)]
  | .rawLength =>
    match values.headD .nil with
    | .string s => return [.integer (Int64.ofNat s.length)]
    | .table a => return [.integer (Int64.ofNat (← ofStep (·.measure a)))]
    | _ => expected "rawlen" 1 "table or string" values
  | .rawSet =>
    let a ← tableArgument "rawset" 1 values
    let key ← anyArgument "rawset" 2 values
    setRaw a key (← anyArgument "rawset" 3 values)
    return [.table a]
  | .require =>
    let name ← stringArgument "require" 1 values
    match libraries.findIdx? fun l => Text.utf8 l = name with
    | some i => return [.table (i + 1)]
    | none =>
      if name = Text.utf8 "_G" then return [.table Memory.globals]
      else complain 1 ("module '" ++ Memory.shown name ++ "' not found")
  | .select => selectFrom values
  | .setMetatable => setMetatable values
  | .toNumber => toNumber values
  | .toText => return [.string (Memory.textOf (← anyArgument "tostring" 1 values))]
  | .type => return [.text (← anyArgument "type" 1 values).sortName]
  | .warn =>
    let _ ← stringArgument "warn" 1 values
    let _ ← (List.range values.length).mapM fun i => stringArgument "warn" (i + 1) values
    return []
  | .xpcall => handledCall call values

end Routine

end Provisioning.Config
