import Provisioning.Proofs.Recipe.Shipped

/-! Recipes refuse before they write. All shipped recipes look at their arguments, and at the guest paths that are
bound, before their first step that writes; so a refused recipe has changed nothing in the build. -/

namespace Provisioning

variable {α β : Type}

/-! ### Steps -/

/-- Steps that cannot fail. -/
def Step.Sure : Step → Prop
  | .requireUnbound _ | .ensureDirectory _ => False
  | _ => True

namespace Provision

/-- No step fails, whatever requests find. -/
inductive Sure : Provision α → Prop
  | done (a : α) : Sure (.done a)
  | step {first : Step} (h : first.Sure) {next : Provision α} (rest : Sure next) : Sure (.step first next)
  | request (url file : String) {next : String × FetchStatus → Provision α} (rest : ∀ answer, Sure (next answer)) :
    Sure (.request url file next)

/-- What can be refused is refused before anything is written. A directory of the host is made last. -/
inductive ChecksFirst : Provision α → Prop
  | sure {p : Provision α} (h : Sure p) : ChecksFirst p
  | refuse (e : Failure) : ChecksFirst (.fail e)
  | unbound (guest : String) {next : Provision α} (rest : ChecksFirst next) :
    ChecksFirst (.step (.requireUnbound guest) next)
  | directory (path : String) {next : Provision α} (rest : Sure next) :
    ChecksFirst (.step (.ensureDirectory path) next)

theorem Sure.perform_ok {p : Provision α} (h : p.Sure) (s : Site) : ∃ a, (p.perform s).1 = .ok a := by
  induction h generalizing s with
  | done a => exact ⟨a, rfl⟩
  | @step first sure next _ ih =>
    have passed : (first.perform s).1 = .ok () := by
      cases first <;> first | rfl | exact sure.elim
    obtain ⟨a, ok⟩ := ih (first.perform s).2
    refine ⟨a, ?_⟩
    rw [perform, ← ok]
    revert passed
    rcases first.perform s with ⟨r, s'⟩
    rintro rfl
    rfl
  | request url file _ ih => exact ih _ _

theorem ChecksFirst.argument {r : Except ArgumentError β} {p : β → Provision α} (h : ∀ x, (p x).ChecksFirst) :
    (ofArguments r >>= p).ChecksFirst := by
  cases r with
  | error e => exact .refuse _
  | ok x => exact h x

end Provision

theorem Step.ensureDirectory_failed {path : String} {s s' : Site} {e : Failure}
    (failed : (Step.ensureDirectory path).perform s = (.error e, s')) :
    s'.build = s.build ∧ ∃ path cause, e = .createDirectory path cause := by
  simp only [perform] at failed
  split at failed
  · cases failed
  · revert failed
    rcases s.machine.makeDirectories (Host.Machine.expandTilde s.machine.home path) with ⟨cause | _, machine⟩
    · rintro ⟨⟩
      exact ⟨rfl, _, cause, rfl⟩
    · nofun

namespace Provision

/-- A refused recipe has left the build alone, and the host too unless a directory could not be made. -/
theorem ChecksFirst.perform_error {p : Provision α} (h : p.ChecksFirst) {s s' : Site} {e : Failure}
    (failed : p.perform s = (.error e, s')) :
    s'.build = s.build ∧ (s'.machine = s.machine ∨ ∃ path cause, e = .createDirectory path cause) := by
  induction h with
  | sure h =>
    obtain ⟨a, ok⟩ := h.perform_ok s
    rw [failed] at ok
    cases ok
  | refuse e =>
    cases failed
    exact ⟨rfl, .inl rfl⟩
  | unbound guest _ ih =>
    rw [perform, Step.perform] at failed
    by_cases bound : s.build.session.bindsGuest guest
    · rw [if_pos bound] at failed
      cases failed
      exact ⟨rfl, .inl rfl⟩
    · rw [if_neg bound] at failed
      exact ih failed
  | @directory path next rest =>
    rw [perform] at failed
    rcases made : (Step.ensureDirectory path).perform s with ⟨cause | _, t⟩
    · rw [made] at failed
      cases failed
      obtain ⟨build, created⟩ := Step.ensureDirectory_failed made
      exact ⟨build, .inr created⟩
    · rw [made] at failed
      have later : next.perform t = (.error e, s') := failed
      obtain ⟨a, ok⟩ := rest.perform_ok t
      rw [later] at ok
      cases ok

end Provision

/-! ### Recipes -/

namespace Recipe

open Provision

/-- A recipe of steps refuses before it writes. -/
def Cautious : Recipe → Prop
  | .steps run => ∀ a, (run a).ChecksFirst
  | .scope => True

theorem selectBox_cautious : (Recipe.steps selectBox).Cautious :=
  fun _ => .argument fun _ => .sure (by repeat constructor)

theorem provider_cautious : (Recipe.steps provider).Cautious :=
  fun _ => .argument fun _ => .argument fun _ => .sure (by repeat constructor)

theorem syncedFolder_cautious : (Recipe.steps syncedFolder).Cautious := by
  intro a
  refine .argument fun folder => .argument fun host => .argument fun guest => ?_
  exact .unbound guest (.directory host (by repeat constructor))

theorem forwardedPort_cautious : (Recipe.steps forwardedPort).Cautious :=
  fun _ => .argument fun _ => .argument fun _ => .argument fun _ => .sure (by repeat constructor)

theorem shellCommand_cautious : (Recipe.steps shellCommand).Cautious := by
  intro a
  unfold shellCommand
  split
  · exact .argument fun command => .sure (by repeat constructor)
  · exact .argument fun dir => .argument fun command => .sure (by repeat constructor)

theorem cloneRepository_cautious : (Recipe.steps cloneRepository).Cautious :=
  fun _ => .argument fun _ => .argument fun _ => .sure (by repeat constructor)

theorem inOptionalDirectory_cautious (message code : String) :
    (Recipe.steps (inOptionalDirectory message code)).Cautious :=
  fun _ => .argument fun _ => .sure (by repeat constructor)

theorem gem_cautious (name : String) : (Recipe.steps (gem name)).Cautious := by
  intro a
  refine .argument fun version => .sure ?_
  cases version <;> repeat constructor

theorem npmPackage_cautious (name : String) : (Recipe.steps (npmPackage name)).Cautious :=
  fun _ => .argument fun _ => .sure (by repeat constructor)

theorem postgreSql_cautious : (Recipe.steps postgreSql).Cautious :=
  fun _ => .argument fun _ => .sure (by repeat constructor)

theorem ruby_cautious : (Recipe.steps ruby).Cautious :=
  fun _ => .argument fun _ => .sure (by repeat constructor)

theorem virtualenv_cautious : (Recipe.steps virtualenv).Cautious := by
  intro a
  apply ChecksFirst.sure
  constructor
  · trivial
  · refine .request _ _ fun answer => ?_
    repeat constructor

/-- Recipes that take no arguments have nothing to refuse. -/
theorem cautious_of_sure {run : Arguments → Provision Unit} (h : ∀ a, (run a).Sure) :
    (Recipe.steps run).Cautious := fun a => .sure (h a)

theorem neutral_cautious : ∀ x ∈ neutral, x.2.2.Cautious := by
  simp only [neutral, List.forall_mem_cons]
  refine ⟨selectBox_cautious, provider_cautious, syncedFolder_cautious, forwardedPort_cautious,
    shellCommand_cautious, cautious_of_sure fun a => ?_, trivial, List.forall_mem_nil _⟩
  repeat constructor

theorem macOnly_cautious : ∀ x ∈ macOnly, x.2.2.Cautious := by
  simp only [macOnly, List.forall_mem_cons]
  refine ⟨cloneRepository_cautious, inOptionalDirectory_cautious _ _, inOptionalDirectory_cautious _ _,
    inOptionalDirectory_cautious _ _, inOptionalDirectory_cautious _ _, ?_, ?_, ?_, ?_, ?_, ?_, ?_, ?_, ?_, ?_, ?_,
    ?_, ?_, gem_cautious _, gem_cautious _, gem_cautious _, npmPackage_cautious _, npmPackage_cautious _, ?_,
    virtualenv_cautious, postgreSql_cautious, ruby_cautious, List.forall_mem_nil _⟩
  all_goals
    refine cautious_of_sure fun a => ?_
    repeat constructor

theorem shipped_cautious {b : Binding Recipe} (h : b ∈ shipped.bindings) : b.recipe.Cautious := by
  rcases mem_of_shipped h with h | h
  · exact neutral_cautious _ h
  · exact macOnly_cautious _ h

end Recipe

theorem Registry.shipped_course_checksFirst {c : Command} {platform : Platform} {blocked : Bool}
    {p : Provision Unit} (h : Recipe.shipped.course c platform blocked = .steps p) : p.ChecksFirst := by
  obtain ⟨run, resolved, rfl⟩ := resolve_of_course h
  obtain ⟨b, hb, -, -, recipe⟩ := mem_of_resolve resolved
  have cautious := Recipe.shipped_cautious hb
  rw [recipe] at cautious
  exact cautious c.arguments

end Provisioning
