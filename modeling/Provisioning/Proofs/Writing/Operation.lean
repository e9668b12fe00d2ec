import Provisioning.Proofs.Build.Operation
import Provisioning.Proofs.Writing.Provision

/-! What a run of operations writes. The directories around a writing are those of the blocks around its
operation, as they stand in the tree of operations; this is what the open directories of the build come to. -/

namespace Provisioning

variable {τ τ' α β : Type}

theorem Nested.runOn_andReturn (a : Nested τ α) (x : β) (s : Site × τ) :
    (do let _ ← a; return x : Nested τ β).runOn s = ((a.runOn s).1.map fun _ => x, (a.runOn s).2) := by
  rw [Action.runOn_bind]
  rcases a.runOn s with ⟨e | _, s'⟩ <;> rfl

theorem Nested.Agrees.andReturn {R : τ → τ' → Prop} {a : Nested τ α} {b : Nested τ' α}
    (h : Nested.Agrees R a b) (x : β) :
    Nested.Agrees R (do let _ ← a; return x) (do let _ ← b; return x) := by
  intro s t t' ht
  obtain ⟨outcome, site, state⟩ := h s t t' ht
  rw [Nested.runOn_andReturn, Nested.runOn_andReturn]
  exact ⟨congrArg (Except.map fun _ => x) outcome, site, state⟩

namespace Operation

/-! ### Depth and trace do not matter -/

mutual

theorem effect_agrees (depth depth' : Nat) (op : Operation) :
    Nested.Agrees (fun _ _ => True) (effect depth op) (effect depth' op) := by
  cases op with
  | within directory block =>
    exact .andReturn ((performAll_agrees (depth + 1) (depth' + 1) block).inDirectory directory) none
  | dispatch c => exact .andReturn (Registry.dispatch_agrees .none Recipe.shipped c) none
  | dispatchBlock c block =>
    have blocks := performAll_agrees (depth + 1) (depth' + 1) block
    exact .andReturn (Registry.dispatch_agrees (.some blocks) Recipe.shipped c) none
  | createFile path => exact fun s t t' _ => ⟨rfl, rfl, trivial⟩
  | deleteFile path => exact fun s t t' _ => ⟨rfl, rfl, trivial⟩
  | _ =>
    rw [effect, effect]
    · exact fun s t t' _ => ⟨rfl, rfl, trivial⟩
    all_goals nofun

theorem performAll_agrees (depth depth' : Nat) (ops : List Operation) :
    Nested.Agrees (fun _ _ => True) (performAll depth ops) (performAll depth' ops) := by
  cases ops with
  | nil =>
    rw [performAll, performAll]
    exact fun s t t' _ => ⟨rfl, rfl, trivial⟩
  | cons op ops =>
    intro s t t' _
    obtain ⟨outcome, site, -⟩ := effect_agrees depth depth' op s t t' trivial
    rw [performAll_cons, performAll_cons]
    revert outcome site
    rcases (effect depth op).runOn (s, t) with ⟨r, s', u⟩
    rcases (effect depth' op).runOn (s, t') with ⟨r', s'', u'⟩
    rintro rfl rfl
    cases r with
    | ok _ => exact performAll_agrees depth depth' ops _ _ _ trivial
    | error e => exact ⟨rfl, rfl, trivial⟩

end

/-- What an operation comes to at a site. -/
def leaves (op : Operation) (s : Site) : Except Failure (Option (String × FetchStatus)) × Site :=
  let (r, (s', _)) := (effect 0 op).runOn (s, [])
  (r, s')

theorem effect_leaves (depth : Nat) (op : Operation) (s : Site) (t : Trace) :
    (effect depth op).runOn (s, t) =
      ((op.leaves s).1, ((op.leaves s).2, ((effect depth op).runOn (s, t)).2.2)) := by
  obtain ⟨outcome, site, -⟩ := effect_agrees depth 0 op s t [] trivial
  exact Prod.ext outcome (Prod.ext site rfl)

/-- `performAll_cons` with what the first operation comes to. -/
theorem performAll_leaves (depth : Nat) (op : Operation) (ops : List Operation) (s : Site) (t : Trace) :
    (performAll depth (op :: ops)).runOn (s, t) =
      let (r, s') := op.leaves s
      let t' := ((effect depth op).runOn (s, t)).2.2 ++ [⟨depth, op, s, s', r⟩]
      match r with
      | .ok _ => (performAll depth ops).runOn (s', t')
      | .error e => (.error e, (s', t')) := by
  rw [performAll_cons]
  have comes := effect_leaves depth op s t
  revert comes
  rcases (effect depth op).runOn (s, t) with ⟨r, s', t'⟩
  rcases op.leaves s with ⟨r', s''⟩
  rintro ⟨⟩
  rfl

/-! ### Writings -/

mutual

/-- The writings of an operation. A block writes inside the directory that is opened for it. -/
def writings : Operation → Site → List Writing
  | .within directory block, s => (Course.inside directory).writings (some (blockWritings block)) s
  | .dispatch c, s => Recipe.shipped.writings c none s
  | .dispatchBlock c block, s => Recipe.shipped.writings c (some (blockWritings block)) s
  | op, s => op.steps.writings s

/-- The writings of a block, which ends with the first operation that fails. -/
def blockWritings : List Operation → Site → List Writing
  | [], _ => []
  | op :: ops, s =>
    op.writings s ++
      match op.leaves s with
      | (.ok _, s) => blockWritings ops s
      | (.error _, _) => []

end

/-- The writings of operations that are run one after another, whatever fails. -/
def allWritings : List Operation → Site → List Writing
  | [], _ => []
  | op :: ops, s => op.writings s ++ allWritings ops (op.leaves s).2

mutual

theorem effect_writes (depth : Nat) (op : Operation) : (effect depth op).Writes op.writings := by
  cases op with
  | within directory block =>
    intro s t
    have wrote := (performAll_writes (depth + 1) block).inDirectory directory
    rw [writings, effect, Nested.runOn_andReturn]
    exact wrote s t
  | dispatch c =>
    intro s t
    rw [writings, effect, Nested.runOn_andReturn]
    exact Nested.Writes.dispatch .none Recipe.shipped c s t
  | dispatchBlock c block =>
    intro s t
    have wrote := performAll_writes (depth + 1) block
    rw [writings, effect, Nested.runOn_andReturn]
    exact Nested.Writes.dispatch (.some wrote) Recipe.shipped c s t
  | createFile path => exact fun s t => .refl _
  | deleteFile path => exact fun s t => .refl _
  | _ =>
    rw [effect]
    · exact fun s t => Provision.perform_writes _ s
    all_goals nofun

theorem performAll_writes (depth : Nat) (ops : List Operation) :
    (performAll depth ops).Writes (blockWritings ops) := by
  cases ops with
  | nil =>
    rw [performAll]
    exact fun s t => .refl _
  | cons op ops =>
    intro s t
    have wrote := effect_writes depth op s t
    rw [effect_leaves] at wrote
    rw [performAll_leaves, blockWritings]
    revert wrote
    rcases op.leaves s with ⟨e | _, s'⟩
    · rw [List.append_nil]
      exact id
    · exact fun wrote => wrote.trans (performAll_writes depth ops _ _)

end

/-- What comes after a failure inside a block is not written, and a block stands inside the blocks around it. -/
example (s : Site) :
    Operation.writings (.within "a" [.run "x", .within "b" [.run "y", .fail "no", .run "z"], .run "z"]) s =
      [.script ["a"] false "x", .script ["b", "a"] false "y"] := rfl

/-- A record's operation has left the build as it found it, but for what it wrote. -/
theorem genuine_writes {r : Record} (h : r.Genuine) :
    r.before.build.Writes (r.operation.writings r.before) r.after.build := by
  obtain ⟨t, t', eq⟩ := h
  have wrote := effect_writes r.depth r.operation r.before t
  rw [eq] at wrote
  exact wrote

theorem perform_leaves (op : Operation) (s : Site) : (perform op s).2 = (op.leaves s).2 := by
  have alone : (perform op s).2 = ((performAll 0 [op]).runOn (s, [])).2.1 := rfl
  rw [alone, performAll_leaves, performAll]
  rcases op.leaves s with ⟨_ | _, s'⟩ <;> rfl

theorem performEach_writes (ops : List Operation) (s : Site) :
    s.build.Writes (allWritings ops s) (performEach ops s).2.build := by
  induction ops generalizing s with
  | nil => exact .refl _
  | cons op ops ih =>
    have wrote := effect_writes 0 op s []
    rw [effect_leaves] at wrote
    have later : (performEach (op :: ops) s).2 = (performEach ops (op.leaves s).2).2 := by
      rw [← perform_leaves]
      rfl
    rw [later]
    exact wrote.trans (ih _)

/-! ### Fragments that are handed over -/

mutual

/-- The fragments that the tree of an operation has in it. -/
def handed : Operation → List Fragment
  | .add (.shell f) => [f]
  | .within _ block => blockHanded block
  | .dispatchBlock _ block => blockHanded block
  | _ => []

def blockHanded : List Operation → List Fragment
  | [] => []
  | op :: ops => op.handed ++ blockHanded ops

end

theorem steps_plain {op : Operation} (h : ∀ f, op ≠ .add (.shell f)) :
    op.steps.Alike Step.Plain (Option.map Prod.fst) op.steps := by
  cases op with
  | add d =>
    refine .step ?_ (.done rfl)
    cases d with
    | shell f => exact absurd rfl (h f)
    | _ => exact rfl
  | fetch url file => exact .request url file fun path status status' => .done rfl
  | _ => repeat constructor

mutual

/-- The fragments that a run hands over are those of the tree. -/
theorem handed_of_mem (op : Operation) {s : Site} {w : Writing} {f : Fragment} (h : w ∈ op.writings s)
    (hands : w.Hands f) : f ∈ op.handed := by
  cases op with
  | within directory block =>
    obtain ⟨w', hw, rfl⟩ := List.mem_map.mp h
    cases w' with
    | directive d => exact blockHanded_of_mem block hw hands
    | _ => cases hands
  | dispatch c =>
    obtain ⟨ws, none, -⟩ := Registry.hands_of_mem h hands
    cases none
  | dispatchBlock c block =>
    obtain ⟨ws, same, s', w', hw, hands⟩ := Registry.hands_of_mem h hands
    obtain rfl := Option.some.inj same
    exact blockHanded_of_mem block hw hands
  | add d =>
    have own : w = .directive d := List.mem_singleton.mp h
    obtain rfl : d = .shell f := Writing.directive.inj (own.symm.trans hands)
    exact List.mem_singleton_self f
  | _ =>
    rw [writings] at h
    · exact absurd hands ((steps_plain (by simp)).not_hands _ f w h)
    all_goals nofun

theorem blockHanded_of_mem (ops : List Operation) {s : Site} {w : Writing} {f : Fragment}
    (h : w ∈ blockWritings ops s) (hands : w.Hands f) : f ∈ blockHanded ops := by
  cases ops with
  | nil => cases h
  | cons op ops =>
    rw [blockHanded, List.mem_append]
    rw [blockWritings, List.mem_append] at h
    rcases h with own | later
    · exact .inl (handed_of_mem op own hands)
    · revert later
      rcases op.leaves s with ⟨e | _, s'⟩
      · nofun
      · exact fun later => .inr (blockHanded_of_mem ops later hands)

end

end Operation

end Provisioning
