import Provisioning.Proofs.TwoHosts.Provision
import Provisioning.Proofs.Writing.Operation

/-! A run of operations on two hosts. The records of the two runs stand side by side: the same operations, with
the same results and the same paths, at places that differ in downloads at most. -/

namespace Provisioning

variable {τ α β γ : Type} {cache : Cache.Root} {m m' : Host.Machine}

theorem Nested.Twins.andReturn {R : τ → τ → Prop} {ws : Site → List Writing} {a : Nested τ α}
    (h : a.Twins cache m m' R id ws) (f : β → γ) (x : β) :
    (do let _ ← a; return x : Nested τ β).Twins cache m m' R f ws := by
  intro s s' t t' twin related
  obtain ⟨ends, state⟩ := h s s' t t' twin related
  have same : (a.runOn (s, t)).1 = (a.runOn (s', t')).1 := ends.same
  rw [Nested.runOn_andReturn, Nested.runOn_andReturn, same]
  exact ⟨⟨rfl, ends.site, ends.writings⟩, state⟩

namespace Operation

mutual

/-- No statement in the tree syncs a folder, and nobody else changes the host meanwhile. -/
def Undisturbed : Operation → Prop
  | .within _ block => BlockUndisturbed block
  | .dispatch c => ¬c.SyncsFolder
  | .dispatchBlock c block => ¬c.SyncsFolder ∧ BlockUndisturbed block
  | .createFile _ | .deleteFile _ => False
  | _ => True

def BlockUndisturbed : List Operation → Prop
  | [] => True
  | op :: ops => op.Undisturbed ∧ BlockUndisturbed ops

end

theorem steps_indoors (op : Operation) : op.steps.Alike Step.Indoors (Option.map Prod.fst) op.steps := by
  cases op with
  | fetch url file => exact .request url file fun path status status' => .done rfl
  | _ => repeat constructor

end Operation

/-- The same operation in two runs. -/
structure Record.Twin (cache : Cache.Root) (m m' : Host.Machine) (r r' : Record) : Prop where
  depth : r'.depth = r.depth
  operation : r'.operation = r.operation
  before : r.before.Twin cache m m' r'.before
  after : r.after.Twin cache m m' r'.after
  /-- Success or the same error, and the same path if one was asked for. -/
  outcome : r.outcome.map (Option.map Prod.fst) = r'.outcome.map (Option.map Prod.fst)

abbrev Trace.Twin (cache : Cache.Root) (m m' : Host.Machine) : Trace → Trace → Prop :=
  List.Forall₂ (Record.Twin cache m m')

namespace Operation

mutual

theorem effect_twins (depth : Nat) (op : Operation) (h : op.Undisturbed) :
    (effect depth op).Twins cache m m' (Trace.Twin cache m m') (Option.map Prod.fst) op.writings := by
  cases op with
  | within directory block =>
    rw [Undisturbed] at h
    have twins := (performAll_twins (depth + 1) block h).inDirectory directory
    rw [effect]
    exact twins.andReturn _ none
  | dispatch c =>
    rw [effect]
    exact (Nested.Twins.dispatch h .none).andReturn _ none
  | dispatchBlock c block =>
    obtain ⟨other, inner⟩ := h
    have twins := performAll_twins (depth + 1) block inner
    rw [effect]
    exact (Nested.Twins.dispatch other (.some twins)).andReturn _ none
  | createFile path => exact h.elim
  | deleteFile path => exact h.elim
  | _ =>
    rw [effect]
    · exact .ofProvision (steps_indoors _)
    all_goals nofun

theorem performAll_twins (depth : Nat) (ops : List Operation) (h : BlockUndisturbed ops) :
    (performAll depth ops).Twins cache m m' (Trace.Twin cache m m') id (blockWritings ops) := by
  cases ops with
  | nil =>
    rw [performAll]
    exact fun s s' t t' twin related => ⟨⟨rfl, twin, .refl _⟩, related⟩
  | cons op ops =>
    obtain ⟨first, rest⟩ := h
    intro s s' t t' twin related
    obtain ⟨ends, state⟩ := effect_twins depth op first s s' t t' twin related
    rw [effect_leaves depth op s t, effect_leaves depth op s' t'] at ends
    obtain ⟨outcome, site, thins⟩ := ends
    rw [performAll_leaves, performAll_leaves, blockWritings, blockWritings]
    revert outcome site
    rcases op.leaves s with ⟨r, u⟩
    rcases op.leaves s' with ⟨r', u'⟩
    intro outcome site
    have recorded : Trace.Twin cache m m' (_ ++ [⟨depth, op, s, u, r⟩]) (_ ++ [⟨depth, op, s', u', r'⟩]) :=
      List.rel_append state (.cons ⟨rfl, rfl, twin, site, outcome⟩ .nil)
    -- A failure ends both blocks at the same operation.
    rcases r with e | x <;> rcases r' with e' | x'
    · exact ⟨⟨congrArg Except.error (Except.error.inj outcome), site, thins.append (.refl _)⟩, recorded⟩
    · cases outcome
    · cases outcome
    · obtain ⟨⟨outcome, site, later⟩, state⟩ := performAll_twins depth ops rest u u' _ _ site recorded
      exact ⟨⟨outcome, site, thins.append later⟩, state⟩

end

/-- Operations that are run one after another on two hosts. -/
theorem performEach_twins (ops : List Operation) (h : BlockUndisturbed ops) {s s' : Site}
    (twin : s.Twin cache m m' s') :
    Trace.Twin cache m m' (trace ops s) (trace ops s') ∧
      (performEach ops s).2.Twin cache m m' (performEach ops s').2 ∧
      Writing.Thins (cache.Fuller m m') (allWritings ops s) (allWritings ops s') := by
  induction ops generalizing s s' with
  | nil => exact ⟨.nil, twin, .refl _⟩
  | cons op ops ih =>
    obtain ⟨first, rest⟩ := h
    have thins := (effect_twins 0 op first s s' [] [] twin .nil).1.writings
    obtain ⟨⟨-, site, -⟩, records⟩ := performAll_twins 0 [op] ⟨first, trivial⟩ s s' [] [] twin .nil
    obtain ⟨later, final, laterThins⟩ := ih rest site
    refine ⟨List.rel_append records later, final, ?_⟩
    rw [allWritings, allWritings, ← perform_leaves, ← perform_leaves]
    exact thins.append laterThins

end Operation

end Provisioning
