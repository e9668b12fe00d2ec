import Provisioning.Proofs.Recipe.Shipped
import Provisioning.Proofs.Registry.Resolve

/-! Two platforms. No step of a recipe looks at the platform of its build: the platform decides which recipe a
statement has, and nothing else. So a statement that has a recipe on one platform has the same effect on any
platform for which the registry has the same recipe. -/

namespace Provisioning

variable {α ρ : Type}

/-! ### Builds for another platform -/

/-- The same build for the platform `p`. -/
def Build.on (b : Build) (p : Platform) : Build := { b with platform := p }

def Site.on (s : Site) (p : Platform) : Site := { s with build := s.build.on p }

theorem Build.fetch_on (b : Build) (m : Host.Machine) (url file : String) (p : Platform) :
    (b.on p).fetch m url file = ((b.fetch m url file).1, (b.fetch m url file).2.on p) := by
  by_cases old : (url, file) ∈ b.requested
  · simp [fetch, on, old]
  · by_cases cached : m.pathExists ((b.cache.slot url).hostFile file)
    · simp [fetch, on, isCached, old, cached]
    · simp [fetch, on, isCached, old, cached]
      rfl

theorem Build.install_on (b : Build) (m : Host.Machine) (i : Installation) (p : Platform) :
    (b.on p).install m i = (b.install m i).on p := by
  rw [install, install, fetch_on]
  rfl

theorem Step.perform_on (step : Step) (s : Site) (p : Platform) :
    step.perform (s.on p) = ((step.perform s).1, (step.perform s).2.on p) := by
  cases step with
  | add d => rfl
  | run privileged code => rfl
  | runIn directory code => cases directory <;> rfl
  | install i =>
    have installed := s.build.install_on s.machine i p
    exact congrArg (fun b => (Except.ok (), { s with build := b })) installed
  | requireUnbound guest =>
    have bound : (s.on p).build.session.bindsGuest guest = s.build.session.bindsGuest guest := rfl
    rw [perform, perform, bound]
    split <;> rfl
  | ensureDirectory path =>
    by_cases there : s.machine.pathExists (Host.Machine.expandTilde s.machine.home path)
    · simp [perform, Site.on, there]
    · simp [perform, Site.on, there]

theorem Provision.perform_on (recipe : Provision α) (s : Site) (p : Platform) :
    recipe.perform (s.on p) = ((recipe.perform s).1, (recipe.perform s).2.on p) := by
  induction recipe generalizing s with
  | done a => rfl
  | fail e => rfl
  | step first next ih =>
    have same := first.perform_on s p
    simp only [perform, same]
    rcases first.perform s with ⟨_ | _, s'⟩
    · rfl
    · exact ih s'
  | request url file next ih =>
    have fetched := s.build.fetch_on s.machine url file p
    have later := ih (s.build.guestFile url file, (s.build.fetch s.machine url file).1)
      { s with build := (s.build.fetch s.machine url file).2 }
    rw [perform, perform, ← later]
    simp only [Site.on] at fetched ⊢
    rw [fetched]
    rfl

/-! ### Registries -/

/-- The registry has for `q` whatever it has for `p`. -/
def Registry.Covers (r : Registry ρ) (p q : Platform) : Prop :=
  ∀ {subject action recipe}, r.recipe? subject action p = some recipe → r.recipe? subject action q = some recipe

namespace Recipe

/-- The first of the recipes that is one for an action. -/
def named? (recipes : List (String × String × Recipe)) (subject action : String) : Option Recipe :=
  (recipes.find? fun x => x.1 = subject ∧ x.2.1 = action).map (·.2.2)

theorem find?_bind (recipes : List (String × String × Recipe)) (p q : Platform) (subject action : String) :
    ((bind p recipes).find? (·.Names subject action q)).map (·.recipe) =
      if p = q then named? recipes subject action else none := by
  rw [bind, List.find?_map, Option.map_map]
  split
  · next same =>
    have names : (fun b : Binding Recipe => decide (b.Names subject action q)) ∘
        (fun x : String × String × Recipe => ⟨x.1, x.2.1, p, x.2.2⟩) =
          fun x => decide (x.1 = subject ∧ x.2.1 = action) := by
      funext x
      simp [Binding.Names, Binding.Under, same]
    rw [named?, ← names]
    rfl
  · next other =>
    rw [List.find?_eq_none.mpr]
    · rfl
    · simp [Binding.Names, other]

theorem shipped_recipe? (subject action : String) (p : Platform) :
    shipped.recipe? subject action p = (named? neutral subject action).or
      (if .osx = p then named? macOnly subject action else none) := by
  rw [Registry.recipe?_eq, shipped, List.find?_append, List.find?_append, Option.map_or, Option.map_or,
    find?_bind, find?_bind, find?_bind]
  cases p <;> simp

theorem shipped_covers (p : Platform) : shipped.Covers p .osx := by
  intro subject action recipe found
  rw [shipped_recipe?] at found ⊢
  cases p with
  | osx => exact found
  | linux =>
    rw [if_neg (by decide), Option.or_none] at found
    rw [found, Option.some_or]

end Recipe

end Provisioning
