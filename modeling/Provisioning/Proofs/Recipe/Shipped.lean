import Mathlib.Data.List.Basic
import Provisioning.Proofs.Dispatch
import Provisioning.Recipe.Shipped

/-! What all shipped recipes have in common. None of them makes anything of what a request found, none hands
over a fragment, and the one recipe that looks at the host and changes it is the one for synced folders. -/

namespace Provisioning

variable {α β γ δ : Type}

/-! ### Recipes that differ in answers -/

/-- Steps that hand over no fragment. -/
def Step.Plain : Step → Prop
  | .add d => d.fragment? = none
  | _ => True

/-- Steps that neither look at the host nor change it, requests apart. -/
def Step.Indoors : Step → Prop
  | .ensureDirectory _ => False
  | _ => True

/-- Steps that add no synced folder. -/
def Step.Unsynced : Step → Prop
  | .add d => d.syncedGuest? = none
  | _ => True

/-- Steps that satisfy `P` and are the same whatever requests find, up to results that are the same under
`f`. -/
inductive Provision.Alike (P : Step → Prop) (f : α → γ) : Provision α → Provision α → Prop
  | done {a b : α} (h : f a = f b) : Alike P f (.done a) (.done b)
  | fail (e : Failure) : Alike P f (.fail e) (.fail e)
  | step {first : Step} (h : P first) {p q : Provision α} (next : Alike P f p q) :
    Alike P f (.step first p) (.step first q)
  | request (url file : String) {p q : String × FetchStatus → Provision α}
    (next : ∀ path status status', Alike P f (p (path, status)) (q (path, status'))) :
    Alike P f (.request url file p) (.request url file q)

theorem Provision.Alike.mono {P Q : Step → Prop} {f : α → γ} {p q : Provision α} (h : p.Alike P f q)
    (imp : ∀ step, P step → Q step) : p.Alike Q f q := by
  induction h with
  | done same => exact .done same
  | fail e => exact .fail e
  | step first _ ih => exact .step (imp _ first) ih
  | request url file _ ih => exact .request url file ih

/-- What is made of an argument that may be refused. -/
theorem Provision.Alike.argument {P : Step → Prop} {f : α → γ} (r : Except ArgumentError β)
    {p : β → Provision α} (h : ∀ x, (p x).Alike P f (p x)) :
    (ofArguments r >>= p).Alike P f (ofArguments r >>= p) := by
  cases r with
  | error e => exact .fail _
  | ok x => exact h x

namespace Recipe

open Provision

/-- A recipe that hands over no fragment, leaves the host alone, syncs no folder and makes nothing of what requests
find. -/
def Steady : Recipe → Prop
  | .steps run => ∀ a, (run a).Alike (fun step => step.Plain ∧ step.Indoors ∧ step.Unsynced) id (run a)
  | .scope => True

theorem selectBox_steady : (Recipe.steps selectBox).Steady := by
  intro a
  refine .argument _ fun name => ?_
  repeat constructor

theorem provider_steady : (Recipe.steps provider).Steady := by
  intro a
  refine .argument _ fun driver => .argument _ fun name => ?_
  repeat constructor

theorem forwardedPort_steady : (Recipe.steps forwardedPort).Steady := by
  intro a
  refine .argument _ fun ports => .argument _ fun guest => .argument _ fun host => ?_
  repeat constructor

theorem shellCommand_steady : (Recipe.steps shellCommand).Steady := by
  intro a
  unfold shellCommand
  split
  · refine .argument _ fun command => ?_
    repeat constructor
  · refine .argument _ fun dir => .argument _ fun command => ?_
    repeat constructor

theorem cloneRepository_steady : (Recipe.steps cloneRepository).Steady := by
  intro a
  refine .argument _ fun url => .argument _ fun dir => ?_
  repeat constructor

theorem inOptionalDirectory_steady (message code : String) :
    (Recipe.steps (inOptionalDirectory message code)).Steady := by
  intro a
  refine .argument _ fun dir => ?_
  repeat constructor

theorem gem_steady (name : String) : (Recipe.steps (gem name)).Steady := by
  intro a
  refine .argument _ fun version => ?_
  cases version <;> repeat constructor

theorem npmPackage_steady (name : String) : (Recipe.steps (npmPackage name)).Steady := by
  intro a
  refine .argument _ fun version => ?_
  repeat constructor

theorem postgreSql_steady : (Recipe.steps postgreSql).Steady := by
  intro a
  refine .argument _ fun version => ?_
  repeat constructor

theorem ruby_steady : (Recipe.steps ruby).Steady := by
  intro a
  refine .argument _ fun version => ?_
  repeat constructor

/-- The archive's path is all that the recipe takes of the answer to its request. -/
theorem virtualenv_steady : (Recipe.steps virtualenv).Steady := by
  intro a
  refine .step ⟨trivial, trivial, trivial⟩ (.request _ _ fun path status status' => ?_)
  repeat constructor

theorem syncedFolder_plain (a : Arguments) : (syncedFolder a).Alike Step.Plain id (syncedFolder a) := by
  refine .argument _ fun folder => .argument _ fun host => .argument _ fun guest => ?_
  repeat constructor

theorem neutral_steady :
    ∀ x ∈ neutral, x.2.2.Steady ∨ x = ("Setup", "SyncedFolder", .steps syncedFolder) := by
  simp only [neutral, List.forall_mem_cons]
  refine ⟨.inl selectBox_steady, .inl provider_steady, .inr trivial, .inl forwardedPort_steady,
    .inl shellCommand_steady, .inl fun a => ?_, .inl trivial, nofun⟩
  repeat constructor

theorem macOnly_steady : ∀ x ∈ macOnly, x.2.2.Steady := by
  simp only [macOnly, List.forall_mem_cons]
  refine ⟨cloneRepository_steady, inOptionalDirectory_steady _ _, inOptionalDirectory_steady _ _,
    inOptionalDirectory_steady _ _, inOptionalDirectory_steady _ _, ?_, ?_, ?_, ?_, ?_, ?_, ?_, ?_, ?_, ?_, ?_,
    ?_, ?_, gem_steady _, gem_steady _, gem_steady _, npmPackage_steady _, npmPackage_steady _, ?_,
    virtualenv_steady, postgreSql_steady, ruby_steady, nofun⟩
  all_goals
    intro a
    repeat constructor

theorem mem_of_shipped {b : Binding Recipe} (h : b ∈ shipped.bindings) :
    (b.subject, b.action, b.recipe) ∈ neutral ∨ (b.subject, b.action, b.recipe) ∈ macOnly := by
  have bound {recipes : List (String × String × Recipe)} {platform : Platform}
      (h : b ∈ bind platform recipes) : (b.subject, b.action, b.recipe) ∈ recipes := by
    obtain ⟨x, hx, rfl⟩ := List.mem_map.mp h
    exact hx
  rcases List.mem_append.mp h with h | h
  · rcases List.mem_append.mp h with h | h
    · exact .inl (bound h)
    · exact .inl (bound h)
  · exact .inr (bound h)

/-- All bindings but those of the synced folder. -/
theorem shipped_steady {b : Binding Recipe} (h : b ∈ shipped.bindings) : b.recipe.Steady ∨
    b.subject = "Setup" ∧ b.action = "SyncedFolder" ∧ b.recipe = .steps syncedFolder := by
  rcases mem_of_shipped h with h | h
  · simpa only [Prod.mk.injEq] using neutral_steady _ h
  · exact .inl (macOnly_steady _ h)

/-- One shipped recipe alone runs a block. -/
theorem shipped_scope {b : Binding Recipe} (h : b ∈ shipped.bindings) (scope : b.recipe = .scope) :
    b.subject = "Dir" ∧ b.action = "In" := by
  have listed := mem_of_shipped h
  rw [scope] at listed
  simpa [neutral, macOnly] using listed

end Recipe

/-! ### Statements -/

theorem Registry.mem_of_resolve {ρ : Type} {r : Registry ρ} {subject : String} {action : Option String}
    {platform : Platform} {recipe : ρ} (h : r.resolve subject action platform = .ok recipe) :
    ∃ b ∈ r.bindings, b.subject = subject ∧ some b.action = action ∧ b.recipe = recipe := by
  unfold resolve at h
  split at h
  · cases h
  · split at h
    · cases h
    · next action =>
      split at h
      · cases h
      · split at h
        · cases h
        · next found =>
          obtain rfl := Except.ok.inj h
          obtain ⟨b, first, rfl⟩ := Option.map_eq_some_iff.mp found
          obtain ⟨hb, named⟩ := List.mem_filter.mp (List.mem_of_find?_eq_some first)
          obtain ⟨rfl, rfl⟩ := of_decide_eq_true named
          exact ⟨b, hb, rfl, rfl, rfl⟩

/-- The statement is one for a synced folder. -/
def Command.SyncsFolder (c : Command) : Prop := c.subject = "Setup" ∧ c.action = some "SyncedFolder"

namespace Registry

variable {c : Command} {platform : Platform} {blocked : Bool} {p : Provision Unit}

theorem resolve_of_course {r : Registry Recipe} (h : r.course c platform blocked = .steps p) :
    ∃ run, r.resolve c.subject c.action platform = .ok (.steps run) ∧ run c.arguments = p := by
  unfold course at h
  split at h
  · cases h
  · next run resolved =>
    obtain rfl := Course.steps.inj h
    exact ⟨run, resolved, rfl⟩
  · split at h
    · cases h
    · split at h <;> cases h

/-- The steps of a shipped recipe hand over no fragment, leave the host alone and sync no folder, unless they are
those for a synced folder. -/
theorem shipped_course (h : Recipe.shipped.course c platform blocked = .steps p) :
    p.Alike (fun step => step.Plain ∧ step.Indoors ∧ step.Unsynced) id p ∨
      c.SyncsFolder ∧ p = Recipe.syncedFolder c.arguments := by
  obtain ⟨run, resolved, rfl⟩ := resolve_of_course h
  obtain ⟨b, hb, subject, action, recipe⟩ := mem_of_resolve resolved
  rcases Recipe.shipped_steady hb with steady | ⟨setup, folder, synced⟩
  · rw [recipe] at steady
    exact .inl (steady c.arguments)
  · rw [recipe] at synced
    obtain rfl := Recipe.steps.inj synced
    exact .inr ⟨⟨subject ▸ setup, action ▸ congrArg some folder⟩, rfl⟩

theorem shipped_course_plain (h : Recipe.shipped.course c platform blocked = .steps p) :
    p.Alike Step.Plain id p := by
  rcases shipped_course h with alike | ⟨-, rfl⟩
  · exact alike.mono fun _ => And.left
  · exact Recipe.syncedFolder_plain _

theorem shipped_course_indoors (other : ¬c.SyncsFolder)
    (h : Recipe.shipped.course c platform blocked = .steps p) : p.Alike Step.Indoors id p := by
  rcases shipped_course h with alike | ⟨syncs, -⟩
  · exact alike.mono fun _ steady => steady.2.1
  · exact absurd syncs other

end Registry

end Provisioning
