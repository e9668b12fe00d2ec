import Mathlib.Algebra.GroupWithZero.Nat
import Mathlib.Data.List.Nodup
import Provisioning.CommandLine.Report

/-! Summaries. Counting the directives one after another keeps a count for each kind so far, in the order in which the
kinds came up; so a summary lists each kind once, and its counts agree with the other numbers of a plan. -/

namespace Provisioning

theorem Kind.name_injective : Function.Injective Kind.name := by
  intro j k same
  revert same
  cases j <;> cases k <;> decide

namespace Session

variable {kinds : List Kind} {counts : List (Kind × Nat)} {j k : Kind} {n : Nat}

/-! ### One more -/

theorem map_fst_countOne (counts : List (Kind × Nat)) (k : Kind) :
    (countOne counts k).map Prod.fst =
      if k ∈ counts.map Prod.fst then counts.map Prod.fst else counts.map Prod.fst ++ [k] := by
  induction counts with
  | nil => simp [countOne]
  | cons c rest ih =>
    obtain ⟨j, n⟩ := c
    rw [countOne]
    by_cases same : j = k
    · simp [same]
    · rw [if_neg same, List.map_cons, ih]
      simp only [List.map_cons, List.mem_cons, Ne.symm same, false_or]
      split <;> rfl

theorem sum_countOne (counts : List (Kind × Nat)) (k : Kind) :
    ((countOne counts k).map Prod.snd).sum = (counts.map Prod.snd).sum + 1 := by
  induction counts with
  | nil => simp [countOne]
  | cons c rest ih =>
    obtain ⟨j, n⟩ := c
    rw [countOne]
    split
    · simp only [List.map_cons, List.sum_cons]
      omega
    · simp only [List.map_cons, List.sum_cons, ih]
      omega

theorem mem_countOne_of_ne (other : j ≠ k) : (j, n) ∈ countOne counts k ↔ (j, n) ∈ counts := by
  induction counts with
  | nil => simp [countOne, other]
  | cons c rest ih =>
    obtain ⟨i, m⟩ := c
    rw [countOne]
    split
    · next same => simp [same, other]
    · rw [List.mem_cons, List.mem_cons, ih]

theorem mem_countOne_self (distinct : (counts.map Prod.fst).Nodup) :
    (k, n) ∈ countOne counts k ↔ n = (counts.lookup k).getD 0 + 1 := by
  induction counts with
  | nil => simp [countOne]
  | cons c rest ih =>
    obtain ⟨i, m⟩ := c
    rw [List.map_cons, List.nodup_cons] at distinct
    obtain ⟨fresh, distinct⟩ := distinct
    rw [countOne]
    split
    · next same =>
      subst same
      have absent : (i, n) ∉ rest := fun h => fresh (List.mem_map.mpr ⟨_, h, rfl⟩)
      simp [absent]
    · next apart =>
      have other : (k == i) = false := beq_false_of_ne (Ne.symm apart)
      rw [List.mem_cons, ih distinct, List.lookup_cons, other]
      simp [Ne.symm apart]

/-! ### Counts -/

/-- Each kind among `kinds` has one count, which is how often it occurs, and the counts are in the order in which the
kinds first occur. -/
structure Tallies (kinds : List Kind) (counts : List (Kind × Nat)) : Prop where
  mem_iff : ∀ k n, (k, n) ∈ counts ↔ k ∈ kinds ∧ n = kinds.count k
  ordered : (counts.map Prod.fst).Pairwise fun j k => kinds.idxOf j < kinds.idxOf k

namespace Tallies

theorem distinct (h : Tallies kinds counts) : (counts.map Prod.fst).Nodup :=
  h.ordered.imp fun before same => by simp [same] at before

theorem listed_iff (h : Tallies kinds counts) : k ∈ counts.map Prod.fst ↔ k ∈ kinds := by
  constructor
  · intro listed
    obtain ⟨⟨j, n⟩, there, rfl⟩ := List.mem_map.mp listed
    exact ((h.mem_iff j n).mp there).1
  · intro occurs
    exact List.mem_map.mpr ⟨_, (h.mem_iff k _).mpr ⟨occurs, rfl⟩, rfl⟩

theorem lookup_getD (h : Tallies kinds counts) (k : Kind) : (counts.lookup k).getD 0 = kinds.count k := by
  cases found : counts.lookup k with
  | none =>
    have absent : k ∉ kinds := by
      intro occurs
      have there := (h.mem_iff k _).mpr ⟨occurs, rfl⟩
      have apart := List.lookup_eq_none_iff.mp found _ there
      simp at apart
    rw [List.count_eq_zero_of_not_mem absent]
    rfl
  | some n =>
    obtain ⟨before, after, eq, -⟩ := List.lookup_eq_some_iff.mp found
    have there : (k, n) ∈ counts := eq ▸ List.mem_append_right _ List.mem_cons_self
    exact ((h.mem_iff k n).mp there).2

/-- What one more directive does to the counts. -/
theorem countOne (h : Tallies kinds counts) (k : Kind) : Tallies (kinds ++ [k]) (countOne counts k) where
  mem_iff j n := by
    by_cases same : j = k
    · subst same
      rw [mem_countOne_self h.distinct, h.lookup_getD]
      simp
    · rw [mem_countOne_of_ne same, h.mem_iff]
      simp [same, Ne.symm same]
  ordered := by
    -- The kinds that have a count already occur where they did.
    have kept : (counts.map Prod.fst).Pairwise fun i j => (kinds ++ [k]).idxOf i < (kinds ++ [k]).idxOf j := by
      refine h.ordered.imp_of_mem fun {i j} here there before => ?_
      rwa [List.idxOf_append_of_mem (h.listed_iff.mp here), List.idxOf_append_of_mem (h.listed_iff.mp there)]
    rw [map_fst_countOne]
    split
    · exact kept
    · next new =>
      refine List.pairwise_append.mpr ⟨kept, List.pairwise_singleton .., fun j here last there => ?_⟩
      obtain rfl := List.mem_singleton.mp there
      have absent : last ∉ kinds := fun occurs => new (h.listed_iff.mpr occurs)
      have occurs := h.listed_iff.mp here
      rw [List.idxOf_append_of_mem occurs, List.idxOf_append_of_notMem absent]
      have inside := List.idxOf_lt_length_of_mem occurs
      omega

theorem foldl (h : Tallies kinds counts) (more : List Kind) :
    Tallies (kinds ++ more) (more.foldl Session.countOne counts) := by
  induction more generalizing kinds counts with
  | nil => rwa [List.append_nil]
  | cons k more ih =>
    have next := ih (h.countOne k)
    rwa [List.append_assoc] at next

end Tallies

theorem sum_foldl_countOne (kinds : List Kind) (counts : List (Kind × Nat)) :
    ((kinds.foldl countOne counts).map Prod.snd).sum = (counts.map Prod.snd).sum + kinds.length := by
  induction kinds generalizing counts with
  | nil => rfl
  | cons k kinds ih =>
    rw [List.foldl_cons, ih, sum_countOne, List.length_cons]
    omega

theorem summary_tallied (s : Session) : Tallies s.kinds s.summary := by
  have start : Tallies [] [] := ⟨by simp, List.Pairwise.nil⟩
  exact start.foldl s.kinds

theorem length_fragments (s : Session) : s.fragments.length = s.kinds.count .shell := by
  rw [fragments, List.length_filterMap_eq_countP, kinds, List.count, List.countP_map]
  refine List.countP_congr fun d _ => ?_
  cases d <;> simp [Directive.fragment?, Directive.kind]

open CommandLine

/-- The main statement. A summary counts every kind of the session once, in the order in which the kinds first occur; the
counts add up to the number of directives, and that of scripts is the number that a plan gives, in lines or in a
document. -/
theorem summary_agrees (s : Session) (p : Platform) :
    Tallies s.kinds s.summary ∧ (s.summary.map fun c => c.1.name).Nodup ∧
      (s.summary.map Prod.snd).sum = s.size ∧
      let shells := (s.summary.lookup .shell).getD 0
      shells = s.fragments.length ∧
        (∃ before, planText p s = before ++ stat "Fragments" (Decimal.digitText shells ++ " ("
          ++ Decimal.digitText (privilegedCount s) ++ " privileged)")) ∧
        ∃ fields, planJson p s = .object fields ∧ fields.lookup "fragments" = some (.natural shells) := by
  have tallied := s.summary_tallied
  have shells : (s.summary.lookup .shell).getD 0 = s.fragments.length := by
    rw [tallied.lookup_getD, length_fragments]
  refine ⟨tallied, ?_, ?_, shells, ?_, ?_⟩
  · have names := tallied.distinct.map Kind.name_injective
    rwa [List.map_map] at names
  · have total := sum_foldl_countOne s.kinds []
    rw [summary, total, kinds, List.length_map, size]
    simp
  · rw [shells]
    exact ⟨_, rfl⟩
  · rw [shells]
    exact ⟨_, rfl, rfl⟩

end Session

end Provisioning
