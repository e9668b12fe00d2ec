import Provisioning.Proofs.Dispatch

/-! The sites that a recipe and a statement come through. What holds of each of them holds at every moment of a
run. -/

namespace Provisioning

variable {α : Type}

/-- The sites after each of the steps that are taken. -/
def Provision.sites : Provision α → Site → List Site
  | .done _, _ => []
  | .fail _, _ => []
  | .step first next, s =>
    let (r, s) := first.perform s
    s :: match r with
      | .ok () => next.sites s
      | .error _ => []
  | .request url file next, s =>
    let (status, build) := s.build.fetch s.machine url file
    let answer := (s.build.guestFile url file, status)
    let s := { s with build }
    s :: (next answer).sites s

/-- The sites inside a statement whose block, if there is one, comes through the sites `block`. -/
def Course.sites (block : Option (Site → List Site)) : Course → Site → List Site
  | .refused _, _ => []
  | .steps p, s => p.sites s
  | .inside directory, s => s.enter directory :: block.elim [] fun inner => inner (s.enter directory)

def Registry.sites (r : Registry Recipe) (c : Command) (block : Option (Site → List Site)) (s : Site) :
    List Site :=
  (r.course c s.build.platform block.isSome).sites block s

theorem Provision.end_mem_sites (p : Provision α) (s : Site) : (p.perform s).2 ∈ s :: p.sites s := by
  induction p generalizing s with
  | done a => exact List.mem_singleton_self s
  | fail e => exact List.mem_singleton_self s
  | step first next ih =>
    simp only [perform, sites]
    rcases first.perform s with ⟨e | _, s'⟩
    · exact List.mem_cons_of_mem _ (List.mem_singleton_self s')
    · exact List.mem_cons_of_mem _ (ih s')
  | request url file next ih =>
    exact List.mem_cons_of_mem _ (ih _ _)

end Provisioning
