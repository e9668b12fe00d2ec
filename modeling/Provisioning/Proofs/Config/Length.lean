import Mathlib.Algebra.Group.Nat.Defs
import Provisioning.Config.Table

/-! The length of a table after looks at it. A look can move the edge from which the length is searched; the search
comes to the same number as long as there are no gaps before it. That takes a table whose edge is in its row, as it is in
every table that is made. -/

namespace Provisioning.Config

namespace Table

variable {t : Table} {n low high fuel : Nat}

/-! ### Searches -/

/-- There is an item at the number, or it is zero, and none after it. -/
def IsBorder (t : Table) (n : Nat) : Prop := (0 < n → (t.item n).isNil = false) ∧ (t.item (n + 1)).isNil = true

theorem le_between : low ≤ t.between fuel low high := by
  induction fuel generalizing low high with
  | zero => exact Nat.le_refl low
  | succ fuel ih =>
    rw [between]
    split
    · exact Nat.le_refl low
    · dsimp only
      split
      · exact ih
      · have later : (low + high) / 2 ≤ t.between fuel ((low + high) / 2) high := ih
        omega

theorem isBorder_between (less : low < high) (deep : high - low ≤ 2 ^ fuel)
    (bottom : 0 < low → (t.item low).isNil = false) (top : (t.item high).isNil = true) :
    t.IsBorder (t.between fuel low high) ∧ t.between fuel low high < high := by
  induction fuel generalizing low high with
  | zero =>
    have next : high = low + 1 := by omega
    subst next
    exact ⟨⟨bottom, top⟩, less⟩
  | succ fuel ih =>
    rw [between]
    rw [Nat.pow_succ] at deep
    split
    · have next : high = low + 1 := by omega
      subst next
      exact ⟨⟨bottom, top⟩, less⟩
    · dsimp only
      split
      · next none =>
        obtain ⟨border, below⟩ := ih (by omega) (by omega) bottom none
        exact ⟨border, by omega⟩
      · next some =>
        exact ih (by omega) (by omega) (fun _ => by simpa using some) top

theorem le_beyond (small : n ≤ greatestInteger.toNat) : n ≤ t.beyond fuel n := by
  induction fuel generalizing n with
  | zero => exact Nat.le_refl n
  | succ fuel ih =>
    rw [beyond]
    split
    · next half =>
      split
      · exact le_between
      · have later : 2 * n ≤ t.beyond fuel (2 * n) := ih (by omega)
        omega
    · split
      · exact le_between
      · exact small

/-! ### The length -/

/-- The row is no longer than integers can tell, and its edge is in it. -/
structure Sane (t : Table) : Prop where
  edge : t.edge ≤ t.row.size
  size : t.row.size ≤ greatestInteger.toNat

/-- The length of a table whose row has no end. -/
def fullLength (t : Table) : Nat :=
  if t.slots.isEmpty || (t.item (t.row.size + 1)).isNil then t.row.size else t.beyond 64 (max 1 t.row.size)

theorem item_edge (edge : Nat) : ({ t with edge } : Table).item n = t.item n := rfl

theorem between_edge (edge : Nat) : ({ t with edge } : Table).between fuel low high = t.between fuel low high := by
  induction fuel generalizing low high with
  | zero => rfl
  | succ fuel ih =>
    simp only [between, item_edge, ih]

theorem beyond_edge (edge : Nat) : ({ t with edge } : Table).beyond fuel n = t.beyond fuel n := by
  induction fuel generalizing n with
  | zero => rfl
  | succ fuel ih =>
    simp only [beyond, between_edge, item_edge, ih]

/-- A row without an end is measured without the edge. -/
theorem fullLength_edge (edge : Nat) : ({ t with edge } : Table).fullLength = t.fullLength := by
  simp only [fullLength, item_edge, beyond_edge]

theorem le_fullLength (sane : t.Sane) : t.row.size ≤ t.fullLength := by
  have small : max 1 t.row.size ≤ greatestInteger.toNat := Nat.max_le.mpr ⟨by decide, sane.size⟩
  rw [fullLength]
  split
  · exact Nat.le_refl _
  · exact Nat.le_trans (Nat.le_max_right _ _) (le_beyond small)

/-- Where the length is found. -/
inductive Found (t : Table) : Nat × Nat → Prop
  | before {n edge : Nat} (some : 0 < t.edge) (none : (t.item t.edge).isNil = true) (border : t.IsBorder n)
      (below : n < t.edge) (moved : edge = t.edge ∨ edge = n) : t.Found (n, edge)
  | here (border : t.IsBorder t.edge) (inside : t.edge < t.row.size) : t.Found (t.edge, t.edge)
  | after {n : Nat} (edge : 0 < t.edge → (t.item t.edge).isNil = false)
      (going : (t.item (t.edge + 1)).isNil = false) (border : t.IsBorder n) (beyond : t.edge < n)
      (inside : n < t.row.size) : t.Found (n, n)
  | full (edge : 0 < t.edge → (t.item t.edge).isNil = false)
      (last : t.edge = t.row.size ∨ (t.item (t.edge + 1)).isNil = false ∧ (t.item t.row.size).isNil = false) :
      t.Found (t.fullLength, t.edge)

theorem found_border (sane : t.Sane) : t.Found t.border := by
  have bound : greatestInteger.toNat ≤ 2 ^ 64 := by decide
  obtain ⟨edgeLe, sizeLe⟩ := sane
  have missing (h : ¬(0 < t.edge ∧ (t.item t.edge).isNil = true)) (some : 0 < t.edge) :
      (t.item t.edge).isNil = false := by
    simpa [some] using h
  rw [border]
  dsimp only
  split
  · next before =>
    obtain ⟨some, none⟩ := before
    have found : t.IsBorder (if 2 ≤ t.edge ∧ (!(t.item (t.edge - 1)).isNil) = true then t.edge - 1
        else t.between 64 0 t.edge) ∧ (if 2 ≤ t.edge ∧ (!(t.item (t.edge - 1)).isNil) = true then t.edge - 1
        else t.between 64 0 t.edge) < t.edge := by
      split
      · next prior =>
        have next : t.edge - 1 + 1 = t.edge := by omega
        exact ⟨⟨fun _ => by simpa using prior.2, by rwa [next]⟩, by omega⟩
      · exact isBorder_between some (by omega) (fun zero => absurd zero (Nat.lt_irrefl 0)) none
    obtain ⟨border, below⟩ := found
    refine .before some none border below ?_
    generalize (if 2 ≤ t.edge ∧ (!(t.item (t.edge - 1)).isNil) = true then t.edge - 1
      else t.between 64 0 t.edge) = n
    split
    · exact .inr rfl
    · exact .inl rfl
  · next some =>
    have edge := missing some
    split
    · next here => exact .here ⟨edge, here.2⟩ here.1
    · next going =>
      split
      · next ending =>
        have deep : t.row.size - t.edge ≤ 2 ^ 64 := by omega
        obtain ⟨border, below⟩ := isBorder_between ending.1 deep edge ending.2
        have start : t.edge ≤ t.between 64 t.edge t.row.size := le_between
        have beyond : t.edge < t.between 64 t.edge t.row.size := by
          refine Nat.lt_of_le_of_ne start fun same => going ⟨ending.1, ?_⟩
          rw [same]
          exact border.2
        exact .after edge (by simpa [ending.1] using going) border beyond below
      · next open_ =>
        have last : t.edge = t.row.size ∨ (t.item (t.edge + 1)).isNil = false ∧ (t.item t.row.size).isNil = false := by
          rcases Nat.eq_or_lt_of_le edgeLe with whole | inside
          · exact .inl whole
          · exact .inr ⟨by simpa [inside] using going, by simpa [inside] using open_⟩
        have full := Found.full edge last
        rw [fullLength] at full
        split
        · next none => rwa [if_pos none] at full
        · next some => rwa [if_neg some] at full

/-! ### Looks -/

/-- The length does not depend on the edge any more, unless the edge goes back. -/
def Settled (t : Table) : Prop := t.length ≤ t.edge ∨ t.row.size ≤ t.length

/-- A table that was looked at: it has the same values and the same length. -/
structure Kept (t t' : Table) : Prop where
  same : t' = { t with edge := t'.edge }
  length : t'.length = t.length
  sane : t'.Sane
  settled : t.Settled → t'.Settled

theorem Kept.refl (sane : t.Sane) : t.Kept t := ⟨rfl, rfl, sane, id⟩

theorem Kept.trans {t' t'' : Table} (h : t.Kept t') (h' : t'.Kept t'') : t.Kept t'' where
  same := by
    have same := h'.same
    rwa [h.same] at same
  length := h'.length.trans h.length
  sane := h'.sane
  settled := h'.settled ∘ h.settled

theorem border_of_isBorder (border : t.IsBorder n) (inside : n < t.row.size) :
    ({ t with edge := n } : Table).border = (n, n) := by
  rw [Table.border]
  dsimp only
  rw [if_neg, if_pos]
  · exact ⟨inside, border.2⟩
  · rintro ⟨some, none⟩
    rw [item_edge, border.1 some] at none
    cases none

theorem kept_edge (sane : t.Sane) (border : t.IsBorder n) (inside : n < t.row.size) (length : t.length = n) :
    t.Kept { t with edge := n } ∧ ({ t with edge := n } : Table).Settled := by
  have same : ({ t with edge := n } : Table).length = n := congrArg Prod.fst (border_of_isBorder border inside)
  have settled : ({ t with edge := n } : Table).Settled := .inl (Nat.le_of_eq same)
  exact ⟨⟨rfl, same.trans length.symm, ⟨Nat.le_of_lt inside, sane.size⟩, fun _ => settled⟩, settled⟩

/-- Once the length was asked for, the table is settled. -/
theorem kept_measured (sane : t.Sane) : t.Kept t.measured ∧ t.measured.Settled := by
  have found := found_border sane
  have length : t.length = t.border.1 := rfl
  have measured : t.measured = { t with edge := t.border.2 } := rfl
  generalize t.border = b at found length measured
  rw [measured]
  cases found with
  | before some none border below moved =>
    rcases moved with rfl | rfl
    · exact ⟨.refl sane, .inl (Nat.le_of_lt (length ▸ below))⟩
    · exact kept_edge sane border (Nat.lt_of_lt_of_le below sane.edge) length
  | here border inside => exact ⟨.refl sane, .inl (Nat.le_of_eq length)⟩
  | after _ _ border _ inside => exact kept_edge sane border inside length
  | full edge last => exact ⟨.refl sane, .inr (length ▸ le_fullLength sane)⟩

theorem place_eq_some {k : Key} {i : Nat} (h : t.place? k = some i) :
    i < t.row.size ∧ ∃ n : Int64, k = .integer n ∧ n.toInt = i + 1 := by
  cases k with
  | integer n =>
    rw [place?] at h
    split at h
    · next inside =>
      obtain rfl := Option.some.inj h
      exact ⟨by omega, n, rfl, by omega⟩
    · cases h
  | _ => cases h

/-- A look at a key keeps a table if the length is the same from there. -/
theorem kept_reach {k : Key} (sane : t.Sane) (settled : t.Settled)
    (length : ∀ i, t.place? k = some i → t.edge ≤ i → ({ t with edge := i + 1 } : Table).length = t.length) :
    t.Kept (t.reach k) := by
  rw [reach]
  split
  · next i place =>
    split
    · next beyond =>
      have length := length i place beyond
      have inside := (place_eq_some place).1
      refine ⟨rfl, length, ⟨inside, sane.size⟩, fun _ => ?_⟩
      rcases settled with before | after
      · left
        show _ ≤ i + 1
        omega
      · exact .inr (length ▸ after)
    · exact .refl sane
  · exact .refl sane

/-- A look at one of the items, if there are no gaps before the length. -/
theorem kept_reach_item (sane : t.Sane) (settled : t.Settled)
    (items : ∀ j, 0 < j → j ≤ t.length → (t.item j).isNil = false) (inside : n ≤ t.length) :
    t.Kept (t.reach (.integer (Int64.ofNat n))) := by
  refine kept_reach sane settled fun i place beyond => ?_
  obtain ⟨below, k, key, number⟩ := place_eq_some place
  have sizes := sane.size
  have greatest : greatestInteger.toNat < 2 ^ 63 := by decide
  -- The edge is before the length, so that the whole row is.
  have whole : t.row.size ≤ t.length := by
    refine settled.resolve_left fun before => ?_
    have number' := Int64.toInt_ofNat_of_lt (n := n) (by have := sane.edge; omega)
    rw [Key.integer.inj key] at number'
    omega
  have going {j : Nat} (some : 0 < j) (inside : j ≤ t.row.size) : (t.item j).isNil ≠ true := by
    rw [items j some (Nat.le_trans inside whole)]
    exact Bool.false_ne_true
  have full : t.length = t.fullLength := by
    have found := found_border sane
    have length : t.length = t.border.1 := rfl
    generalize t.border = b at found length
    cases found with
    | before some none border below => exact absurd none (going some sane.edge)
    | here border inside => exact absurd border.2 (going (Nat.succ_pos _) inside)
    | after _ _ border _ inside => exact absurd border.2 (going (Nat.succ_pos _) inside)
    | full => exact length
  have found := found_border (t := { t with edge := i + 1 }) ⟨below, sane.size⟩
  have length : ({ t with edge := i + 1 } : Table).length = ({ t with edge := i + 1 } : Table).border.1 := rfl
  generalize ({ t with edge := i + 1 } : Table).border = b at found length
  rw [length]
  cases found with
  | before some none => exact absurd none (going some below)
  | here border inside => exact absurd border.2 (going (Nat.succ_pos _) inside)
  | after _ _ border _ inside => exact absurd border.2 (going (Nat.succ_pos _) inside)
  | full => rw [fullLength_edge, full]

/-- A look at the first item of a table that is no sequence. -/
theorem kept_reach_first (sane : t.Sane) (settled : t.Settled)
    (other : ¬(0 < t.length ∧ !(t.item 1).isNil)) : t.Kept (t.reach (.integer (Int64.ofNat 1))) := by
  refine kept_reach sane settled fun i place beyond => ?_
  obtain ⟨below, k, key, number⟩ := place_eq_some place
  obtain rfl : i = 0 := by
    have one : (Int64.ofNat 1).toInt = 1 := by decide
    rw [Key.integer.inj key] at one
    omega
  have start : t.edge = 0 := Nat.le_zero.mp beyond
  have contradicts (item : (t.item (t.edge + 1)).isNil = false) (some : 0 < t.length) : False := by
    rw [start] at item
    exact other ⟨some, by simp [item]⟩
  obtain ⟨gap, none⟩ : (t.item 1).isNil = true ∧ t.length = 0 := by
    have found := found_border sane
    have length : t.length = t.border.1 := rfl
    generalize t.border = b at found length
    cases found with
    | before some => exact absurd some (by omega)
    | here border inside =>
      have next := border.2
      rw [start] at next length
      exact ⟨next, length⟩
    | after _ going _ beyond => exact (contradicts going (by omega)).elim
    | full _ last =>
      have long := le_fullLength sane
      rcases last with whole | ⟨going, -⟩
      · omega
      · exact (contradicts going (by omega)).elim
  have present (h : 0 < 0 + 1 → (({ t with edge := 0 + 1 } : Table).item (0 + 1)).isNil = false) : False := by
    have item : (t.item 1).isNil = false := h Nat.one_pos
    rw [gap] at item
    cases item
  have found := found_border (t := { t with edge := 0 + 1 }) ⟨below, sane.size⟩
  have length : ({ t with edge := 0 + 1 } : Table).length = ({ t with edge := 0 + 1 } : Table).border.1 := rfl
  generalize ({ t with edge := 0 + 1 } : Table).border = b at found length
  rw [length, none]
  cases found with
  | before _ _ _ less => exact Nat.lt_one_iff.mp less
  | here border => exact (present border.1).elim
  | after edge => exact (present edge).elim
  | full edge => exact (present edge).elim

/-! ### Tables that are made -/

/-- The rows and the edges of two tables have the same size. -/
def SameRow (t t' : Table) : Prop := t'.edge = t.edge ∧ t'.row.size = t.row.size

theorem Sane.of_sameRow {t' : Table} (sane : t.Sane) (h : t.SameRow t') : t'.Sane := by
  obtain ⟨edge, size⟩ := h
  exact ⟨by rw [edge, size]; exact sane.edge, by rw [size]; exact sane.size⟩

theorem sameRow_add {t' : Table} {k : Key} {v : Value} (h : t.add? k v = some t') : t.SameRow t' := by
  rw [add?] at h
  dsimp only at h
  split at h
  · cases h
  · split at h
    · obtain rfl := Option.some.inj h
      exact ⟨rfl, rfl⟩
    · split at h
      · cases h
      · split at h
        · obtain rfl := Option.some.inj h
          exact ⟨rfl, rfl⟩
        · obtain rfl := Option.some.inj h
          exact ⟨rfl, rfl⟩

theorem sameRow_put (t : Table) (k : Key) (v : Value) : t.SameRow (t.put k v) := by
  rw [put]
  split
  · exact ⟨rfl, Array.size_setIfInBounds ..⟩
  · cases added : t.add? k v with
    | none => exact ⟨rfl, rfl⟩
    | some t' => exact sameRow_add added

theorem sameRow_puts (pairs : List (Key × Value)) (t : Table) :
    t.SameRow (pairs.foldl (fun t (k, v) => t.put k v) t) := by
  induction pairs generalizing t with
  | nil => exact ⟨rfl, rfl⟩
  | cons p pairs ih =>
    have first := sameRow_put t p.1 p.2
    have rest := ih (t.put p.1 p.2)
    exact ⟨rest.1.trans first.1, rest.2.trans first.2⟩

theorem size_fill (values : List (Value × Nat)) (row : Array Value) :
    (values.foldl (fun r (v, i) => r.setIfInBounds i v) row).size = row.size := by
  induction values generalizing row with
  | nil => rfl
  | cons p values ih =>
    rw [List.foldl_cons, ih]
    exact Array.size_setIfInBounds ..

theorem sane_empty : empty.Sane := ⟨Nat.le_refl 0, Nat.zero_le _⟩

theorem sane_withRoom {row : Nat} (small : row ≤ greatestInteger.toNat) (others : Nat) : (withRoom row others).Sane := by
  have size : (withRoom row others).row.size = row := Array.size_replicate
  exact ⟨Nat.le_of_eq size.symm, by rwa [size]⟩

theorem sane_resized {row : Nat} (small : row ≤ greatestInteger.toNat) (others : Nat) :
    (t.resized row others).Sane := by
  refine (sane_withRoom small others).of_sameRow ?_
  have puts := sameRow_puts (t.rowAfter row ++ t.others) { withRoom row others with
    row := (t.row.toList.take row).zipIdx.foldl (fun r (v, i) => r.setIfInBounds i v) (withRoom row others).row }
  exact ⟨puts.1, puts.2.trans (size_fill _ _)⟩

theorem rowSize_le (indices : List Nat) : rowSize indices ≤ greatestInteger.toNat := by
  rw [rowSize]
  generalize sizes : ((List.range (maxRowBits + 1)).map (Nat.pow 2)).filter _ = l
  cases last : l.getLast? with
  | none => exact Nat.zero_le _
  | some n =>
    have mem := List.mem_of_getLast? last
    rw [← sizes, List.mem_filter, List.mem_map] at mem
    obtain ⟨⟨i, bound, rfl⟩, -⟩ := mem
    have power : 2 ^ i ≤ 2 ^ maxRowBits := Nat.pow_le_pow_right (by decide) (Nat.le_of_lt_succ (List.mem_range.mp bound))
    exact Nat.le_trans power (by decide)

theorem Sane.set (sane : t.Sane) (k : Key) (v : Value) : (t.set k v).Sane := by
  rw [Table.set]
  split
  · next i place =>
    have inside := (place_eq_some place).1
    refine ⟨?_, ?_⟩
    · rw [Array.size_setIfInBounds]
      exact Nat.max_le.mpr ⟨sane.edge, inside⟩
    · rw [Array.size_setIfInBounds]
      exact sane.size
  · split
    · exact sane.of_sameRow ⟨rfl, rfl⟩
    · split
      · exact sane
      · split
        · next added => exact sane.of_sameRow (sameRow_add added)
        · exact (sane_resized (rowSize_le _) _).of_sameRow (sameRow_put _ k v)

theorem Sane.fill {start : Nat} {values : List Value} (sane : t.Sane)
    (small : start + values.length ≤ greatestInteger.toNat) : (t.fill start values).Sane := by
  rw [Table.fill]
  dsimp only
  split
  · exact (sane_resized small _).of_sameRow ⟨rfl, size_fill _ _⟩
  · exact sane.of_sameRow ⟨rfl, size_fill _ _⟩

end Table

end Provisioning.Config
