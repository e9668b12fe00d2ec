import Provisioning.Proofs.Recipe.Shipped

/-! The one shipped recipe that changes the host. It takes its steps exactly if its first argument makes up a folder,
and every statement for a synced folder, on every platform, runs it. -/

namespace Provisioning

variable {α β : Type}

/-- The first argument is a table with these texts for the host and the guest. -/
def Arguments.Folder (a : Arguments) (host guest : String) : Prop :=
  ∃ fields, a.get? 0 = some (.table fields) ∧ fields.lookup "host" = some (.string host) ∧
    fields.lookup "guest" = some (.string guest)

theorem Arguments.Folder.unique {a : Arguments} {host guest host' guest' : String} (h : a.Folder host guest)
    (h' : a.Folder host' guest') : host' = host ∧ guest' = guest := by
  obtain ⟨fields, first, here, there⟩ := h
  obtain ⟨fields', first', here', there'⟩ := h'
  rw [first] at first'
  cases first'
  rw [here] at here'
  rw [there] at there'
  cases here'
  cases there'
  exact ⟨rfl, rfl⟩

theorem Arguments.stringField_cases (a : Arguments) (fields : List (String × Argument)) (key : String) :
    (∃ e, a.stringField fields key = .error e ∧ ∀ s, fields.lookup key ≠ some (.string s)) ∨
      ∃ s, a.stringField fields key = .ok s ∧ fields.lookup key = some (.string s) := by
  unfold stringField
  split
  · next s found => exact .inr ⟨s, rfl, found⟩
  · next other differs found =>
    refine .inl ⟨_, rfl, fun s eq => differs s ?_⟩
    exact Option.some.inj (found.symm.trans eq)
  · next missing => exact .inl ⟨_, rfl, fun s => by rw [missing]; nofun⟩

theorem Arguments.table_cases (a : Arguments) (name : String) :
    (∃ e, a.table 0 name = .error e ∧ ∀ fields, a.get? 0 ≠ some (.table fields)) ∨
      ∃ fields, a.table 0 name = .ok fields ∧ a.get? 0 = some (.table fields) := by
  rw [table, require]
  cases a.get? 0 with
  | none => exact .inl ⟨_, rfl, nofun⟩
  | some first =>
    cases first with
    | table fields => exact .inr ⟨fields, rfl, rfl⟩
    | _ => exact .inl ⟨_, rfl, nofun⟩

@[simp] theorem Provision.ofArguments_ok (x : β) (p : β → Provision α) :
    (ofArguments (.ok x) >>= p) = p x := rfl

@[simp] theorem Provision.ofArguments_error (e : ArgumentError) (p : β → Provision α) :
    (ofArguments (.error e) >>= p) = .fail (.argument e) := rfl

/-- The recipe for synced folders takes its steps exactly if its arguments make up a folder. -/
theorem Recipe.syncedFolder_folder (a : Arguments) :
    (∃ e, syncedFolder a = .fail e ∧ ∀ host guest, ¬a.Folder host guest) ∨
      ∃ host guest, a.Folder host guest ∧ syncedFolder a = .step (.requireUnbound guest)
        (.step (.ensureDirectory host) (.step (.add (.syncedFolder host guest)) (.done ()))) := by
  rw [syncedFolder]
  obtain ⟨e, failed, none⟩ | ⟨fields, ok, first⟩ := a.table_cases "folder"
  · rw [failed, Provision.ofArguments_error]
    exact .inl ⟨_, rfl, fun host guest ⟨fields, first, _⟩ => none fields first⟩
  · rw [ok, Provision.ofArguments_ok]
    have named {host guest : String} (folder : a.Folder host guest) :
        fields.lookup "host" = some (.string host) ∧ fields.lookup "guest" = some (.string guest) := by
      obtain ⟨fields', first', named⟩ := folder
      rw [first] at first'
      cases first'
      exact named
    obtain ⟨e, failed, none⟩ | ⟨host, ok, here⟩ := a.stringField_cases fields "host"
    · rw [failed, Provision.ofArguments_error]
      exact .inl ⟨_, rfl, fun host guest folder => none host (named folder).1⟩
    · rw [ok, Provision.ofArguments_ok]
      obtain ⟨e, failed, none⟩ | ⟨guest, ok, there⟩ := a.stringField_cases fields "guest"
      · rw [failed, Provision.ofArguments_error]
        exact .inl ⟨_, rfl, fun host guest folder => none guest (named folder).2⟩
      · rw [ok, Provision.ofArguments_ok]
        exact .inr ⟨host, guest, ⟨fields, first, here, there⟩, rfl⟩

/-- The statement is one for a synced folder, and its arguments are accepted. -/
def Command.Syncs (c : Command) (host guest : String) : Prop := c.SyncsFolder ∧ c.arguments.Folder host guest

theorem Registry.course_of_syncsFolder {c : Command} (h : c.SyncsFolder) (platform : Platform) (blocked : Bool) :
    Recipe.shipped.course c platform blocked = .steps (Recipe.syncedFolder c.arguments) := by
  obtain ⟨subject, action, values⟩ := c
  obtain ⟨rfl, rfl⟩ := h
  cases platform <;> rfl

end Provisioning
