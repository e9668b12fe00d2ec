import Provisioning.Proofs.CommandLine.Words
import Provisioning.Proofs.Host.Beside
import Provisioning.Proofs.HostFrame

/-! What a build asks of the interpreter of its configurations. A configuration may do more than state what to build:
end the process, write files, or come out otherwise when it is read again. An evaluation asks its interpreter once, so
what it does to the host and whether it is repeated depend on one text and one stage. -/

namespace Provisioning

open Host

/-! ### The file of a configuration -/

namespace Host.Machine

open FileSystem

variable {m m' : Machine} {path file text : String} {Named : String → Prop}

/-- The path of the file that a path leads to leads there too. -/
theorem WellFormed.find_canonicalPath (h : m.WellFormed) (canonical : m.canonicalPath path = .ok file) :
    ∃ loc e, m.find file = .ok (loc, e) := by
  obtain ⟨⟨loc, entry⟩, led, canonical⟩ := exists_of_bind canonical
  cases entry with
  | none => cases canonical
  | some e =>
    obtain ⟨_, checked, canonical⟩ := exists_of_bind canonical
    obtain rfl := Except.ok.inj canonical
    obtain ⟨-, -, went⟩ := of_lead led
    have lies : m.files.entry? loc = some e := walk_entry went
    have plain := h.files.walk_plain (h.origin path) went
    have noNul := no_nul_pathOf fun n hn => (h.files.names lies n hn).1
    have isPath : IsPath (pathOf loc) := {
      ne_empty := by simp [← String.toList_eq_nil_iff, toList_pathOf]
      no_nul := noNul
      short := short_of_checkLength checked noNul }
    refine ⟨loc, e, ?_⟩
    rw [find_eq_ok_iff, locate_of_isPath isPath, origin_pathOf]
    rcases List.eq_nil_or_concat loc with rfl | ⟨dir, name, eq⟩
    · rw [show steps (pathOf []) = [] by decide, walk_nil rfl, ← lies]
      rfl
    · rw [List.concat_eq_append] at eq
      subst eq
      have inside : m.files.entry? ([] ++ dir) = some .directory := h.files.parent lies
      obtain ⟨outside, marked⟩ := marked_pathOf fun n hn => (h.files.names lies n hn).1
      rw [walk_steps, marked, outside, h.files.walk_down inside, List.nil_append,
        walk_into (h.files.short lies) fun _ target link => plain target (lies.symm.trans link), lies]

/-- New directories do not change the text of a configuration. -/
theorem Gains.readText_canonicalPath (h : m.Gains Named m') (tree : m.WellFormed)
    (canonical : m.canonicalPath path = .ok file) : m'.readText file = m.readText file := by
  obtain ⟨loc, e, found⟩ := tree.find_canonicalPath canonical
  rw [readText, readText, found, h.find_mono found (tree.find_plain found)]

theorem Gains.readText_of_configText (h : m.Gains Named m') (tree : m.WellFormed)
    (canonical : m.canonicalPath path = .ok file) (read : Evaluation.configText file m' = .ok text) :
    m.readText file = .ok text := by
  rw [← h.readText_canonicalPath tree canonical]
  rw [Evaluation.configText] at read
  cases found : m'.readText file with
  | error e =>
    rw [found] at read
    cases read
  | ok text' =>
    rw [found] at read
    exact congrArg Except.ok (Except.ok.inj read)

end Host.Machine

/-! ### Interpreters -/

namespace Evaluation

open Config.Script (Stage)

/-- What is asked of an interpreter that may fail to come back, about a text. -/
structure Sober (i : Interpreter Option) (source text : String) : Prop where
  /-- The text comes to an end and does not end the process. -/
  returns (stage : Stage) : (i source text stage).isSome
  /-- What the text does to the host and to the build it does by statements. -/
  states (stage : Stage) : ∃ (L : Language) (script : L.Script),
    ∀ result, i source text stage = some result → result = L.perform script stage

/-- On the same stage the text comes out the same with a second interpreter, which may be the first one in another
process. -/
def Repeats (i i' : Interpreter Option) (source text : String) : Prop :=
  ∀ stage, i' source text stage = i source text stage

/-- What holds of the text of a configuration and its name, if the path leads to a text. -/
def OfText (m : Machine) (config : String) (P : (source text : String) → Prop) : Prop :=
  ∀ file text, m.canonicalPath config = .ok file → m.readText file = .ok text → P (sourceName file) text

variable {i i' : Interpreter Option} {o : Options} {m : Machine} {config file source text : String}

theorem Sober.performs (h : Sober i source text) (stage : Stage) :
    ∃ (L : Language) (script : L.Script), i source text stage = some (L.perform script stage) := by
  obtain ⟨L, script, states⟩ := h.states stage
  obtain ⟨result, returned⟩ := Option.isSome_iff_exists.mp (h.returns stage)
  exact ⟨L, script, by rw [returned, states result returned]⟩

/-- An interpreter that always comes back. -/
def returning (i : Interpreter Id) : Interpreter Option := fun source text stage => some (i source text stage)

/-- The interpreter of the language is sober about every text. -/
theorem interpreter_sober (source text : String) : Sober (returning interpreter) source text := by
  refine ⟨fun _ => rfl, fun stage => ?_⟩
  cases read : textScript source text with
  | error e =>
    -- A program without statements, in a language whose programs end with what they come to.
    refine ⟨⟨Except EvaluationError Unit, fun _ => .ok (), id⟩, .done (.error e), fun result returned => ?_⟩
    rw [← Option.some.inj returned, interpreter, read]
    rfl
  | ok script =>
    refine ⟨language, script, fun result returned => ?_⟩
    rw [← Option.some.inj returned, interpreter, read]
    rfl

/-! ### Evaluations of files -/

/-- An evaluation fails before it asks the interpreter, or it asks once: about the text that the file had before, when
the cache's folder is bound. -/
theorem evaluateFileWith_cases (tree : m.WellFormed) (o : Options) (config : String) :
    (∃ e statements after, HostFrame m statements after ∧
        ∀ i : Interpreter Option, evaluateFileWith i o config m = some (.error e, after)) ∨
      ∃ file text site statements, m.canonicalPath config = .ok file ∧ m.readText file = .ok text ∧
        HostFrame m statements site.machine ∧ ∀ i : Interpreter Option, evaluateFileWith i o config m =
          (i (sourceName file) text (.start site)).map fun played => conclude played.1 played.2 := by
  cases canonical : m.canonicalPath config with
  | error e =>
    refine .inl ⟨.configPath config e, [], m, .start tree, fun i => ?_⟩
    rw [evaluateFileWith, canonical]
    rfl
  | ok file =>
    have first : HostFrame m _ (start o ((Host.Path.parent? file).getD ".") m).2.machine := start_frame tree
    rcases started : start o ((Host.Path.parent? file).getD ".") m with ⟨e | _, site⟩ <;> rw [started] at first
    · refine .inl ⟨.provision e, _, site.machine, first, fun i => ?_⟩
      rw [evaluateFileWith, canonical]
      dsimp only
      rw [runWith, started]
      rfl
    · have machine : (Stage.start site).machine = site.machine := rfl
      cases read : configText file site.machine with
      | error e =>
        refine .inl ⟨e, _, site.machine, first, fun i => ?_⟩
        rw [evaluateFileWith, canonical]
        dsimp only
        rw [runWith, started]
        dsimp only
        rw [machine, read]
        rfl
      | ok text =>
        -- The cache's folder is a directory, so the text is the one before the evaluation.
        have before := first.gains.readText_of_configText tree canonical read
        refine .inr ⟨file, text, site, _, rfl, before, first, fun i => ?_⟩
        rw [evaluateFileWith, canonical]
        dsimp only
        rw [runWith, started]
        dsimp only
        rw [machine, read]
        dsimp only
        cases i (sourceName file) text (.start site) <;> rfl

/-- With an interpreter that is sober about the text, an evaluation comes back and leaves of the host what statements
do. -/
theorem evaluateFileWith_frame (tree : m.WellFormed) (sober : OfText m config (Sober i)) (o : Options) :
    ∃ result statements after, evaluateFileWith i o config m = some (result, after) ∧ HostFrame m statements after := by
  rcases evaluateFileWith_cases tree o config with
    ⟨e, statements, after, frame, same⟩ | ⟨file, text, site, statements, canonical, read, frame, asks⟩
  · exact ⟨.error e, statements, after, same i, frame⟩
  · obtain ⟨L, script, played⟩ := (sober file text canonical read).performs (.start site)
    rw [asks, played]
    exact ⟨_, _, _, rfl, frame.trans (finish_frame frame.tree rfl L script)⟩

/-- Interpreters with which the text comes out the same evaluate alike. -/
theorem evaluateFileWith_congr (tree : m.WellFormed) (repeats : OfText m config (Repeats i i')) (o : Options) :
    evaluateFileWith i' o config m = evaluateFileWith i o config m := by
  rcases evaluateFileWith_cases tree o config with
    ⟨e, statements, after, -, same⟩ | ⟨file, text, site, statements, canonical, read, -, asks⟩
  · rw [same, same]
  · rw [asks, asks, repeats file text canonical read]

end Evaluation

end Provisioning
