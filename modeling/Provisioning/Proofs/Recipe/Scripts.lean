import Provisioning.Proofs.Dispatch
import Provisioning.Recipe.Shipped

/-! Statements that run scripts and do nothing else. -/

namespace Provisioning

/-- The steps that run the scripts, one after another. -/
def Provision.scripts : List String → Provision Unit
  | [] => .done ()
  | code :: codes => .step (.run false code) (scripts codes)

/-- On a Mac the statement adds the scripts to the build, in their order, and does nothing else. -/
def Command.Runs (c : Command) (codes : List String) : Prop :=
  ∀ (τ : Type) (block : Option (Nested τ Unit)) (s : Site) (t : τ), s.build.platform = .osx →
    (Recipe.shipped.dispatch c block).runOn (s, t) =
      (.ok (), (s.change fun _ b => codes.foldl Build.run b, t))

theorem Provision.perform_scripts (codes : List String) (s : Site) :
    (scripts codes).perform s = (.ok (), s.change fun _ b => codes.foldl Build.run b) := by
  induction codes generalizing s with
  | nil => rfl
  | cons code codes ih =>
    have first : (scripts (code :: codes)).perform s = (scripts codes).perform (s.change fun _ b => b.run code) := rfl
    rw [first, ih]
    rfl

theorem Command.runs_of_resolve {c : Command} (run : Arguments → Provision Unit) {codes : List String}
    (resolved : Recipe.shipped.resolve c.subject c.action .osx = .ok (.steps run))
    (steps : run c.arguments = .scripts codes) : c.Runs codes := by
  intro τ block s t osx
  have course : Recipe.shipped.course c s.build.platform block.isSome = .steps (.scripts codes) := by
    rw [Registry.course, osx, resolved, ← steps]
  rw [Registry.dispatch_runOn, course]
  show (Nested.ofProvision (.scripts codes)).runOn (s, t) = _
  rw [Nested.runOn_ofProvision, Provision.perform_scripts]

theorem Build.fragments_run (codes : List String) (b : Build) :
    (codes.foldl Build.run b).session.fragments = b.session.fragments ++
      codes.map fun code => ⟨Shell.inDirectory code b.currentDirectory, false, b.currentDirectory⟩ := by
  induction codes generalizing b with
  | nil => simp
  | cons code codes ih =>
    have added : (b.run code).session.fragments = b.session.fragments ++
        [⟨Shell.inDirectory code b.currentDirectory, false, b.currentDirectory⟩] := List.filterMap_append
    have stays : (b.run code).currentDirectory = b.currentDirectory := rfl
    rw [List.foldl_cons, ih, added, stays, List.append_assoc]
    rfl

/-- What a statement runs is determined. -/
theorem Command.Runs.texts {c : Command} {codes codes' : List String} (h : c.Runs codes) (h' : c.Runs codes') :
    codes.map (Shell.inDirectory · ".") = codes'.map (Shell.inDirectory · ".") := by
  let s : Site := ⟨.start .osx ⟨"", ""⟩, ⟨.empty, [], none⟩⟩
  have same := (h Unit none s () rfl).symm.trans (h' Unit none s () rfl)
  have fragments := congrArg (fun r => r.2.1.build.session.fragments.map Fragment.text) same
  simp only [s, Site.change, Build.fragments_run, List.map_append, List.map_map] at fragments
  exact fragments

end Provisioning
