import Provisioning.Config.Evaluate
import Provisioning.Proofs.Registry.Flattened
import Provisioning.Recipe.Shipped

/-! The ways in which a configuration writes a statement: with a subject and an action, with a flattened name, and
with `cd` for a directory. All of them come to one script, from every memory and whatever the values are. -/

namespace Provisioning.Config

/-- The memory with one function more. -/
def Memory.withFunction (m : Memory) (f : Callable) : Memory := (m.newFunction f).2

theorem Memory.text_utf8 (s : String) : Memory.text (Text.utf8 s) = .ok s := by
  rw [text, textOr, Text.ofUtf8?_utf8]

namespace Routine

variable {α β : Type} {m m' : Memory}

/-! ### What a name means -/

theorem script_bind {x : Routine α} {a : α} (h : x.script m = .done (.ok a, m')) (f : α → Routine β) :
    (x >>= f).script m = (f a).script m' := by
  have start : (x >>= f).script m = (x.script m).bind _ := rfl
  rw [start, h]
  rfl

theorem rawValue_text (m : Memory) (a : Address) (name : String) :
    (rawValue a (.text name)).script m = .done (.ok ((m.table a).get (.text name)), m) := rfl

theorem onBrink_script {x : Routine α} {a : α} (h : x.script m = .done (.ok a, m')) (brink : Bool) :
    (onBrink brink x).script m = .done (.ok a, m') := by
  cases brink with
  | false => exact h
  | true =>
    have attempted : (attempt x).script m = .done (.ok (.ok a), m') := by
      have start : (attempt x).script m = (x.script m).bind _ := rfl
      rw [start, h]
      rfl
    exact script_bind attempted _

/-- A level that is left changes nothing about a result. -/
theorem within_script {body : Nat → Routine α} {left : Nat} {a : α} (h : (body left).script m = .done (.ok a, m'))
    (watched : Bool) : (within watched (left + 1) body).script m = .done (.ok a, m') := onBrink_script h _

theorem ofExcept_ok_bind (a : α) (f : α → Routine β) : (ofExcept (.ok a) >>= f) = f a := rfl

/-- Undefined, the name means a function that does what `f` tells: a look at it makes the function and does nothing
else, from outside and from code. -/
structure Means (r : Registry Recipe) (name : String) (f : Callable) : Prop where
  globalValue (m : Memory) (left : Nat) (free : (m.table Memory.globals).get (.text name) = .nil) :
    (globalValue r (left + 2) (.text name)).script m =
      .done (.ok (.function m.functions.size), m.withFunction f)
  look (s : Surroundings) (left : Nat) (known : s.registry = r) (levels : s.left = left + 1) (m : Memory) :
    (s.look (.text name)).script m = .done (.ok (.function m.functions.size), m.withFunction f)

theorem Means.of_undefined {r : Registry Recipe} {name : String} {f : Callable}
    (h : undefined r (.text name) = newFunction f) : Means r name f := by
  have made (m : Memory) : (undefined r (.text name)).script m =
      .done (.ok (.function m.functions.size), m.withFunction f) := by
    rw [h]
    rfl
  constructor
  · intro m left free
    refine within_script ?_ true
    rw [script_bind (rawValue_text m Memory.globals name), free]
    exact onBrink_script (made m) _
  · rintro s left rfl levels m
    rw [Surroundings.look, levels]
    exact onBrink_script (made m) _

theorem means_subject (r : Registry Recipe) {name : String} (capital : (name.toList.headD ' ').isUpper = true) :
    Means r name (.subject name) := by
  refine .of_undefined ?_
  rw [Value.text, undefined, Memory.text_utf8, ofExcept_ok_bind, if_pos capital]

theorem means_action {r : Registry Recipe} {name subject action : String}
    (small : (name.toList.headD ' ').isUpper = false) (flat : r.unflatten? name = some (subject, action)) :
    Means r name (.action subject action) := by
  refine .of_undefined ?_
  rw [Value.text, undefined, Memory.text_utf8, ofExcept_ok_bind, if_neg (Bool.eq_false_iff.mp small), flat]

/-! ### What the forms do -/

theorem subjectStatement_text (call : Caller) (subject action : String) (values : List Value) :
    subjectStatement call subject (.text action :: values) = statement call subject (some action) values := by
  have named : actionName subject (.text action :: values) = .ok (some action) := by
    rw [Value.text, actionName, Memory.text_utf8]
    rfl
  rw [subjectStatement, named, ofExcept_ok_bind, List.tail_cons]

/-- A directory and a function are the argument and the block of a statement, and nothing is looked at. -/
theorem arguments_directory (m : Memory) (directory : String) (a : Address) :
    (m.arguments [.text directory, .function a]).run.run [] = (.ok ([.string directory], some a), []) := by
  have converted : m.conversion (.string (Text.utf8 directory)) = pure (.string directory) := by
    rw [Memory.conversion, Memory.convertInside, Memory.text_utf8]
    rfl
  have kept : Text.dropEndWhile Value.isNil [.text directory, .function a] = [.text directory, .function a] := rfl
  have last : ([.text directory, .function a] : List Value).getLast? = some (.function a) := rfl
  rw [Memory.arguments, kept]
  simp only [last, List.dropLast_cons_cons, List.dropLast_singleton, List.mapM_cons, List.mapM_nil]
  simp only [Value.text, converted]
  rfl

theorem changeDirectory_text (call : Caller) (directory : String) (a : Address) :
    changeDirectory call [.text directory, .function a] =
      statement call "Dir" (some "In") [.text directory, .function a] := by
  have text : directoryText (.text directory) = .ok directory := by
    simp only [Value.text, directoryText, Value.string?, Memory.textOr, Text.ofUtf8?_utf8]
  have read (m : Memory) := arguments_directory m directory a
  have left : changeDirectory call [.text directory, .function a] = (do
      state ⟨"Dir", some "In", [.string directory]⟩ (some do
        let _ ← call true (.function a) []
        pure ())
      return []) := by
    rw [changeDirectory, List.headD_cons, text, ofExcept_ok_bind]
    rfl
  rw [left, statement]
  simp only [read]
  rfl

namespace Surroundings

/-- What a call of a function without code comes to: the result and the memory, and the build, the host and the
first failure after it. -/
def outcome (s : Surroundings) (f : Callable) (place : Nat) (values : List Value) (m : Memory)
    (stage : Script.Stage) : (Except Value (List Value) × Memory) × Script.Stage :=
  ((s.invoke f place values).script m).run s.registry Ending.report stage

theorem invoke_action (s : Surroundings) (subject action : String) (place : Nat) (values : List Value) :
    s.invoke (.action subject action) place values = s.invoke (.subject subject) place (.text action :: values) := by
  have same : s.outside (.action subject action) values = s.outside (.subject subject) (.text action :: values) :=
    (subjectStatement_text s.call subject action values).symm
  rw [invoke, invoke, same]

theorem invoke_changeDirectory (s : Surroundings) (place : Nat) (directory : String) (a : Address) :
    s.invoke (.builtin .changeDirectory) place [.text directory, .function a] =
      s.invoke (.action "Dir" "In") place [.text directory, .function a] := by
  have same : s.outside (.builtin .changeDirectory) [.text directory, .function a] =
      s.outside (.action "Dir" "In") [.text directory, .function a] := changeDirectory_text s.call directory a
  rw [invoke, invoke, same]

end Surroundings

/-- The main statement. A flattened name and its subject mean two functions, and a call of the first with values
comes to the same as a call of the second with the action before them. What `cd` does with a directory and a function
is what the statement `Dir In` does. -/
theorem forms_agree {r : Registry Recipe} {subject action : String} {verb rest : List Char}
    (h : r.Flattens subject action verb rest) :
    Means r (String.ofList (verb ++ '_' :: rest)) (.action subject action) ∧
      Means r subject (.subject subject) ∧
      ∀ (s : Surroundings) (place : Nat) (m : Memory) (stage : Script.Stage),
        (∀ values, s.outcome (.action subject action) place values m stage =
          s.outcome (.subject subject) place (.text action :: values) m stage) ∧
        ∀ directory a, s.outcome (.builtin .changeDirectory) place [.text directory, .function a] m stage =
          s.outcome (.subject "Dir") place [.text "In", .text directory, .function a] m stage := by
  have small : ((String.ofList (verb ++ '_' :: rest)).toList.headD ' ').isUpper = false := by
    rw [String.toList_ofList]
    cases verb with
    | nil => rfl
    | cons c cs => exact h.small
  refine ⟨means_action small h.unflatten, means_subject r h.capital, fun s place m stage => ⟨fun values => ?_,
    fun directory a => ?_⟩⟩
  · rw [Surroundings.outcome, Surroundings.outcome, Surroundings.invoke_action]
  · rw [Surroundings.outcome, Surroundings.outcome, Surroundings.invoke_changeDirectory, Surroundings.invoke_action]

/-- The name of a recipe that is shipped, in letters of its own. -/
theorem forms_agree_github :
    let m : Memory := .initial
    let s : Surroundings := ⟨Recipe.shipped, maxLevels, true, call Recipe.shipped⟩
    let stage : Script.Stage := .start ⟨.start .osx ⟨"/host", "/guest"⟩, ⟨.empty, [], none⟩⟩
    (s.look (.text "iNSTALL_Git_hub_FOR_mac")).script m =
        .done (.ok (.function m.functions.size), m.withFunction (.action "Install" "GitHubForMac")) ∧
      s.outcome (.action "Install" "GitHubForMac") 0 [] m stage =
        s.outcome (.subject "Install") 0 [.text "GitHubForMac"] m stage := by
  intro m s stage
  have flattens : Recipe.shipped.Flattens "Install" "GitHubForMac" "iNSTALL".toList "Git_hub_FOR_mac".toList := by
    refine ⟨?_, ?_, ?_, ?_, ?_, ?_, ?_, ?_, ?_⟩ <;> decide +kernel
  have written : String.ofList ("iNSTALL".toList ++ '_' :: "Git_hub_FOR_mac".toList) = "iNSTALL_Git_hub_FOR_mac" := by
    decide +kernel
  have looked := (forms_agree flattens).1.look s 198 rfl rfl m
  rw [written] at looked
  exact ⟨looked, ((forms_agree flattens).2.2 s 0 m stage).1 []⟩

end Routine

end Provisioning.Config
