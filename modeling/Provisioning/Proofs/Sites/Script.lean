import Provisioning.Proofs.Script.Direct
import Provisioning.Proofs.Sites.Provision

/-! The sites that a script comes through, inside of its statements and blocks and between them. A fact that recipes
keep step by step, and that directories do not touch, holds of all of them. -/

namespace Provisioning

/-- The recipes of the registry keep `I` at every step, and so do directories that open and close. -/
structure Registry.Maintains (r : Registry Recipe) (I : Site → Prop) : Prop where
  steps {c : Command} {platform : Platform} {blocked : Bool} {p : Provision Unit}
    (course : r.course c platform blocked = .steps p) {s : Site} (held : I s) : ∀ t ∈ p.sites s, I t
  enter {s : Site} (directory : String) (held : I s) : I (s.enter directory)
  leaveTo {s : Site} (depth : Nat) (held : I s) : I (s.leaveTo depth)

namespace Config.Script

variable {ω α : Type} {r : Registry Recipe} {report : ω → Except String Unit} {I : Site → Prop}

/-- The sites that a script comes through, in their order. -/
def sites (r : Registry Recipe) (report : ω → Except String Unit) :
    {α : Type} → Script ω α → Account → List Site
  | _, .done _, _ => []
  | _, .statement c next, a =>
    let ((outcome, _), a') := directStatement (ω := ω) r c none a
    r.sites c none a.1 ++ a'.1 :: sites r report (next (outcome.mapError Failure.message)) a'
  | _, .blockStatement c block next, a =>
    let ((outcome, w), a') := directStatement r c (some (directBlock report (direct r report block))) a
    let inside (s : Site) : List Site := sites r report block (s, a.2)
    r.sites c (some inside) a.1
      ++ a'.1 :: sites r report (next (outcome.mapError Failure.message) w) a'

theorem direct_mem_sites (script : Script ω α) (a : Account) :
    (direct r report script a).2.1 ∈ a.1 :: sites r report script a := by
  induction script generalizing a with
  | done x => exact List.mem_singleton_self a.1
  | statement c next ih => exact List.mem_cons_of_mem _ (List.mem_append_right _ (ih _ _))
  | blockStatement c block next _ ih => exact List.mem_cons_of_mem _ (List.mem_append_right _ (ih _ _ _))

/-! ### One statement -/

/-- A block as a statement has it. -/
def blockOf (r : Registry Recipe) (report : ω → Except String Unit) (block : Option (Script ω ω)) :
    Option (Nested (List Finished × Option ω) Unit) := (block.map (direct r report)).map (directBlock report)

/-- The sites of a block, with the statements that have finished before it. -/
def blockSites (r : Registry Recipe) (report : ω → Except String Unit) (block : Option (Script ω ω))
    (l : List Finished) : Option (Site → List Site) := block.map fun b s => sites r report b (s, l)

theorem directStatement_course (block : Option (Script ω ω)) (c : Command) (a : Account) :
    directStatement r c (blockOf r report block) a = directEnd c a.1.build
      (((r.course c a.1.build.platform block.isSome).follow (blockOf r report block)).runOn (a.1, (a.2, none))) := by
  have blocked : (blockOf r report block).isSome = block.isSome := by cases block <;> rfl
  rw [directStatement, Registry.dispatch_runOn, blocked]

theorem sites_course (block : Option (Script ω ω)) (c : Command) (a : Account) :
    r.sites c (blockSites r report block a.2) a.1 =
      (r.course c a.1.build.platform block.isSome).sites (blockSites r report block a.2) a.1 := by
  have blocked : (blockSites r report block a.2).isSome = block.isSome := by cases block <;> rfl
  rw [Registry.sites, blocked]

/-! ### What holds at every site -/

/-- A statement maintains what its block maintains. -/
theorem directStatement_maintains (maintains : r.Maintains I) (report : ω → Except String Unit)
    (block : Option (Script ω ω))
    (h : ∀ b ∈ block, ∀ a : Account, I a.1 → ∀ t ∈ a.1 :: sites r report b a, I t) (c : Command) (a : Account)
    (held : I a.1) : (∀ t ∈ r.sites c (blockSites r report block a.2) a.1, I t) ∧
      I (directStatement r c (blockOf r report block) a).2.1 := by
  rw [directStatement_course, sites_course]
  cases course : r.course c a.1.build.platform block.isSome with
  | refused e => exact ⟨nofun, held⟩
  | steps p =>
    have within := maintains.steps course held
    exact ⟨within, List.forall_mem_cons.mpr ⟨held, within⟩ _ (p.end_mem_sites a.1)⟩
  | inside directory =>
    have entered := maintains.enter directory held
    cases block with
    | none => exact ⟨List.forall_mem_singleton.mpr entered, held⟩
    | some b =>
      have all := h b rfl (a.1.enter directory, a.2) entered
      -- The block ends at one of its sites, and the directory is left from there.
      exact ⟨all, maintains.leaveTo _ (all _ (direct_mem_sites b (a.1.enter directory, a.2)))⟩

theorem sites_maintain (maintains : r.Maintains I) (script : Script ω α) (a : Account) (held : I a.1) :
    ∀ t ∈ a.1 :: sites r report script a, I t := by
  induction script generalizing a with
  | done x =>
    intro t ht
    rw [List.mem_singleton.mp ht]
    exact held
  | statement c next ih =>
    obtain ⟨within, made⟩ := directStatement_maintains maintains report none (by simp) c a held
    exact List.forall_mem_cons.mpr ⟨held, List.forall_mem_append.mpr ⟨within, ih _ _ made⟩⟩
  | blockStatement c block next ihBlock ih =>
    obtain ⟨within, made⟩ := directStatement_maintains maintains report (some block) (by simpa using ihBlock) c a held
    exact List.forall_mem_cons.mpr ⟨held, List.forall_mem_append.mpr ⟨within, ih _ _ _ made⟩⟩

/-! ### Finished statements -/

/-- The builds around the statement are builds of `l`. -/
def Finished.Seen (f : Finished) (l : List Site) : Prop :=
  (∃ s ∈ l, s.build = f.before) ∧ ∃ s ∈ l, s.build = f.after

theorem Finished.Seen.mono {f : Finished} {l l' : List Site} (h : f.Seen l) (sub : l ⊆ l') : f.Seen l' := by
  obtain ⟨⟨s, hs, before⟩, t, ht, after⟩ := h
  exact ⟨⟨s, sub hs, before⟩, t, sub ht, after⟩

theorem directEnd_seen {c : Command} {s : Site} {x : Except Failure Unit × Site × List Finished × Option ω}
    {f : Finished} (hf : f ∈ (directEnd c s.build x).2.2) (l : List Site) :
    f ∈ x.2.2.1 ∨ f.Seen (s :: (l ++ [(directEnd c s.build x).2.1])) := by
  obtain ⟨o, site, k, w⟩ := x
  rcases List.mem_append.mp hf with inner | own
  · exact .inl inner
  · rw [List.mem_singleton.mp own]
    exact .inr ⟨⟨s, by simp, rfl⟩, site, by simp [directEnd], rfl⟩

theorem directStatement_seen (r : Registry Recipe) (report : ω → Except String Unit) (block : Option (Script ω ω))
    (h : ∀ b ∈ block, ∀ a : Account, ∀ f ∈ (direct r report b a).2.2, f ∈ a.2 ∨ f.Seen (a.1 :: sites r report b a))
    (c : Command) (a : Account) : ∀ f ∈ (directStatement r c (blockOf r report block) a).2.2, f ∈ a.2 ∨
      f.Seen (a.1 :: (r.sites c (blockSites r report block a.2) a.1
        ++ [(directStatement r c (blockOf r report block) a).2.1])) := by
  intro f hf
  rw [directStatement_course] at hf ⊢
  rcases directEnd_seen hf (r.sites c (blockSites r report block a.2) a.1) with inner | seen
  · rw [sites_course]
    cases course : r.course c a.1.build.platform block.isSome with
    | refused e =>
      rw [course] at inner
      exact .inl inner
    | steps p =>
      rw [course] at inner
      exact .inl inner
    | inside directory =>
      rw [course] at inner
      cases block with
      | none => exact .inl inner
      | some b =>
        -- Not known before, it is seen at the sites of the block.
        refine (h b rfl (a.1.enter directory, a.2) f inner).imp_right fun seen => seen.mono ?_
        exact fun t ht => List.mem_cons_of_mem _ (List.mem_append_left _ ht)
  · exact .inr seen

/-- What a statement sees is part of what a script sees that begins with it, and so is what the rest sees. -/
theorem Finished.Seen.andThen {f : Finished} {l l' : List Site} {s t : Site} {known : Prop}
    (h : (known ∨ f.Seen (s :: (l ++ [t]))) ∨ f.Seen (t :: l')) : known ∨ f.Seen (s :: (l ++ t :: l')) := by
  rcases h with (h | seen) | seen
  · exact .inl h
  · refine .inr (seen.mono fun u hu => ?_)
    simp only [List.mem_cons, List.mem_append, List.not_mem_nil, or_false] at hu ⊢
    rcases hu with hu | hu | hu <;> simp [hu]
  · exact .inr (seen.mono fun u hu => List.mem_cons_of_mem _ (List.mem_append_right _ hu))

/-- A statement that finishes in a script is made and left at sites of the script. -/
theorem direct_seen (script : Script ω α) (a : Account) :
    ∀ f ∈ (direct r report script a).2.2, f ∈ a.2 ∨ f.Seen (a.1 :: sites r report script a) := by
  induction script generalizing a with
  | done x => exact fun f hf => .inl hf
  | statement c next ih =>
    have own := directStatement_seen r report none (by simp) c a
    exact fun f hf => Finished.Seen.andThen ((ih _ _ f hf).imp_left (own f))
  | blockStatement c block next ihBlock ih =>
    have own := directStatement_seen r report (some block) (by simpa using ihBlock) c a
    exact fun f hf => Finished.Seen.andThen ((ih _ _ _ f hf).imp_left (own f))

end Config.Script

end Provisioning
