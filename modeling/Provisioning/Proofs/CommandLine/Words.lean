import Mathlib.Data.Option.Basic
import Provisioning.CommandLine.Request

/-! Words and the requests they are read as. No request is for a file without a name, and every file with one can be
asked for: behind two dashes alone, a word is a name whatever it looks like. -/

namespace Provisioning

theorem exists_of_bind {ε α β : Type} {x : Except ε α} {f : α → Except ε β} {b : β} (h : (x >>= f) = .ok b) :
    ∃ a, x = .ok a ∧ f a = .ok b := by
  cases x with
  | error e => cases h
  | ok a => exact ⟨a, rfl, h⟩

namespace CommandLine

variable {s s' : Settings} {p : Progress} {switches : List Switch} {v : Verb} {inv : Invocation}

/-! ### Names of files -/

namespace Settings

/-- The file that is set has a name. -/
def Named (s : Settings) : Prop := ∀ config ∈ s.config, config ≠ ""

theorem raise_config {switch : Switch} (h : s.raise switch = .ok s') : s'.config = s.config := by
  cases switch with
  | verbose | json =>
    rw [raise] at h
    split at h <;> cases h
    rfl
  | _ => cases h

theorem give_config {switch : Switch} {value : String} (h : s.give switch value = .ok s') : s'.config = s.config := by
  cases switch with
  | platform | format =>
    rw [give] at h
    split at h <;> cases h
    rfl
  | output =>
    rw [give] at h
    split at h
    · split at h <;> cases h
      rfl
    · cases h
  | _ => cases h

theorem file_named {word : String} (h : s.file v word = .ok s') : s'.Named := by
  rw [file] at h
  split at h
  · next fits =>
    cases h
    rintro config ⟨⟩ rfl
    simp at fits
  · cases h

end Settings

theorem config_of_map {x : Except Stop Settings} (same : ∀ s', x = .ok s' → s'.config = s.config)
    (h : x.map (⟨·, none⟩) = .ok p) : p.settings.config = s.config := by
  cases x with
  | error e => cases h
  | ok s' =>
    cases h
    exact same s' rfl

theorem readLetters_config {cs : List Char} (h : readLetters switches s cs = .ok p) :
    p.settings.config = s.config := by
  induction cs generalizing s with
  | nil =>
    cases h
    rfl
  | cons c rest ih =>
    rw [readLetters] at h
    split at h
    · cases h
    · next switch _ =>
      split at h
      · split at h
        · cases h
          rfl
        · exact config_of_map (fun s' => Settings.give_config) h
        · exact config_of_map (fun s' => Settings.give_config) h
      · obtain ⟨s', raised, later⟩ := exists_of_bind h
        exact (ih later).trans (Settings.raise_config raised)

theorem readLong_config {word : List Char} (h : readLong switches s word = .ok p) :
    p.settings.config = s.config := by
  unfold readLong at h
  split at h
  split at h
  · cases h
  · split at h
    · cases h
      rfl
    · exact config_of_map (fun s' => Settings.raise_config) h
  · split at h
    · exact config_of_map (fun s' => Settings.give_config) h
    · cases h

theorem files_named {words : List String} (named : s.Named)
    (h : words.foldlM (fun s word => s.file v word) s = .ok s') : s'.Named := by
  induction words generalizing s with
  | nil =>
    cases h
    exact named
  | cons word rest ih =>
    rw [List.foldlM_cons] at h
    obtain ⟨s₁, taken, later⟩ := exists_of_bind h
    exact ih (Settings.file_named taken) later

theorem readRest_named {words : List String} (named : p.settings.Named) (h : readRest v p words = .ok s) :
    s.Named := by
  induction words generalizing p with
  | nil =>
    obtain ⟨s', _ | switch⟩ := p
    · cases h
      exact named
    · cases h
  | cons word rest ih =>
    obtain ⟨s', _ | switch⟩ := p
    · rw [readRest] at h
      split at h
      · obtain ⟨s₁, taken, later⟩ := exists_of_bind h
        exact ih (Settings.file_named taken) later
      · obtain ⟨p₁, taken, later⟩ := exists_of_bind h
        exact ih (by rwa [Settings.Named, readLetters_config taken]) later
      · obtain ⟨p₁, taken, later⟩ := exists_of_bind h
        exact ih (by rwa [Settings.Named, readLong_config taken]) later
      · exact files_named named h
    · rw [readRest] at h
      split at h
      · obtain ⟨s₁, given, later⟩ := exists_of_bind h
        exact ih (by rwa [Settings.Named, Settings.give_config given]) later
      · cases h

theorem readRoot_command {words : List String} (h : readRoot p words = .ok inv) :
    ∃ before word rest, readCommand before word rest = .ok inv := by
  induction words generalizing p with
  | nil => cases h
  | cons word rest ih =>
    obtain ⟨s', _ | switch⟩ := p
    · rw [readRoot] at h
      split at h
      · exact ⟨s', word, rest, h⟩
      · obtain ⟨p₁, -, later⟩ := exists_of_bind h
        exact ih later
      · obtain ⟨p₁, -, later⟩ := exists_of_bind h
        exact ih later
      · cases h
    · rw [readRoot] at h
      split at h
      · obtain ⟨s₁, -, later⟩ := exists_of_bind h
        exact ih later
      · cases h

/-- The file that a request is for. -/
def Request.config? : Request → Option String
  | .plan config _ => some config
  | .render config .. => some config
  | .cache config _ => some config
  | .recipes _ => none
  | .info => none

theorem read_named {words : List String} (h : read words = .ok inv) {config : String}
    (asked : inv.request.config? = some config) : config ≠ "" := by
  obtain ⟨before, word, rest, command⟩ := readRoot_command h
  rw [readCommand] at command
  split at command
  · next v _ =>
    obtain ⟨after, taken, given⟩ := exists_of_bind command
    have unset : Settings.empty.Named := fun config set => by cases set
    have named := readRest_named unset taken
    cases given
    have full : after.config.getD defaultConfig ≠ "" := by
      cases set : after.config with
      | none => decide
      | some config => exact named config set
    cases v <;> cases asked <;> exact full
  · cases command

/-! ### Plans of files -/

/-- A command line that asks for the plan of a file. -/
def planWords (config : String) (platform : Option Platform) (asJson : Bool) : List String :=
  (platform.elim [] fun p => ["--platform", p.name]) ++ "plan" :: (if asJson then ["--json"] else []) ++ ["--", config]

theorem read_planWords {config : String} (named : config ≠ "") (platform : Option Platform) (asJson : Bool) :
    read (planWords config platform asJson) = .ok ⟨.plan config asJson, platform⟩ := by
  have file (s : Settings) (free : s.config = none) :
      s.file .plan config = .ok { s with config := some config } := by
    rw [Settings.file, free]
    simp [Verb.takesConfig, named]
  have command (before : Settings) : readCommand before "plan" ((if asJson then ["--json"] else []) ++ ["--", config]) =
      .ok ⟨.plan config asJson, before.platform⟩ := by
    have rest : readRest .plan ⟨Settings.empty, none⟩ ((if asJson then ["--json"] else []) ++ ["--", config]) =
        .ok { Settings.empty with json := asJson, config := some config } := by
      cases asJson with
      | true => exact (bind_pure _).trans (file { Settings.empty with json := true } rfl)
      | false => exact (bind_pure _).trans (file Settings.empty rfl)
    have found : Verb.all.find? (·.name = "plan") = some .plan := by decide
    rw [readCommand, found]
    dsimp only
    rw [rest]
    rfl
  cases platform with
  | none => exact command _
  | some p =>
    cases p <;> exact command _

end CommandLine

end Provisioning
