import Mathlib.Data.Finset.Card
import Mathlib.Data.Finset.Range
import Mathlib.Data.List.Forall2
import Mathlib.Logic.Relation
import Provisioning.Config.Conversion

/-! Conversions step by step: what a conversion of a table goes into, that it comes to an end, and which results of
the parts make the result of the whole. -/

namespace Provisioning.Config

/-! ### Steps -/

namespace Conversion

variable {α β : Type}

/-- After the looks `seen` the conversion gives `a`, and the looks are `seen'` then. -/
def Gives (c : Conversion α) (seen : List Look) (a : α) (seen' : List Look) : Prop :=
  Id.run (c.run.run seen) = (.ok a, seen')

variable {seen seen' : List Look}

theorem gives_pure {a b : α} : (pure a : Conversion α).Gives seen b seen' ↔ a = b ∧ seen = seen' := by
  simp [Gives]

theorem not_gives_throw {e : Fault} {a : α} : ¬(throw e : Conversion α).Gives seen a seen' := nofun

theorem gives_look {l : Look} : (look l).Gives seen () seen' ↔ l :: seen = seen' := by
  have run : Id.run ((look l).run.run seen) = (.ok (), l :: seen) := rfl
  simp [Gives, run]

theorem gives_liftExcept {r : Except Fault α} {a : α} :
    (Memory.convertInside.liftExcept r).Gives seen a seen' ↔ r = .ok a ∧ seen = seen' := by
  have run : Id.run ((Memory.convertInside.liftExcept r).run.run seen) = (r, seen) := rfl
  simp [Gives, run]

theorem gives_bind {c : Conversion α} {f : α → Conversion β} {b : β} :
    (c >>= f).Gives seen b seen' ↔ ∃ a between, c.Gives seen a between ∧ (f a).Gives between b seen' := by
  have run : Id.run ((c >>= f).run.run seen) = match Id.run (c.run.run seen) with
      | (.ok a, between) => Id.run ((f a).run.run between)
      | (.error e, between) => (.error e, between) := by
    unfold ExceptT.run StateT.run Id.run
    simp only [bind, ExceptT.bind, ExceptT.mk, StateT.bind, ExceptT.bindCont]
    cases c seen with
    | mk r between => cases r <;> rfl
  unfold Gives
  rw [run]
  obtain ⟨r | a, between⟩ := Id.run (c.run.run seen)
  · simp
  · constructor
    · intro h
      exact ⟨a, between, rfl, h⟩
    · rintro ⟨a', between', first, h⟩
      cases first
      exact h

theorem gives_mapM {f : α → Conversion β} {l : List α} {bs : List β} (h : (l.mapM f).Gives seen bs seen') :
    List.Forall₂ (fun a b => ∃ seen seen', (f a).Gives seen b seen') l bs := by
  induction l generalizing seen bs with
  | nil =>
    obtain ⟨rfl, -⟩ := gives_pure.mp h
    exact .nil
  | cons a l ih =>
    rw [List.mapM_cons] at h
    obtain ⟨b, between, first, h⟩ := gives_bind.mp h
    obtain ⟨bs, between', rest, h⟩ := gives_bind.mp h
    obtain ⟨rfl, rfl⟩ := gives_pure.mp h
    exact .cons ⟨_, _, first⟩ (ih rest)

theorem mapM_gives {f : α → Conversion β} {l : List α} {bs : List β}
    (h : List.Forall₂ (fun a b => ∀ seen, ∃ seen', (f a).Gives seen b seen') l bs) (seen : List Look) :
    ∃ seen', (l.mapM f).Gives seen bs seen' := by
  induction h generalizing seen with
  | nil => exact ⟨seen, rfl⟩
  | cons first _ ih =>
    obtain ⟨between, first⟩ := first seen
    obtain ⟨seen', rest⟩ := ih between
    rw [List.mapM_cons]
    exact ⟨seen', gives_bind.mpr ⟨_, _, first, gives_bind.mpr ⟨_, _, rest, rfl⟩⟩⟩

theorem mapM_congr {f g : α → Conversion β} {l : List α} (h : ∀ a ∈ l, f a = g a) : l.mapM f = l.mapM g := by
  induction l with
  | nil => rfl
  | cons a l ih =>
    rw [List.mapM_cons, List.mapM_cons, h a List.mem_cons_self, ih fun b hb => h b (List.mem_cons_of_mem a hb)]

end Conversion

namespace Memory

variable {m : Memory} {a : Address} {v w : Value} {x : Argument} {bound : Nat} {path : List Address}
  {seen seen' : List Look}

/-! ### Tables -/

/-- The table is converted to an array. -/
def IsSequence (m : Memory) (a : Address) : Prop := 0 < (m.table a).length ∧ !((m.table a).item 1).isNil

instance (m : Memory) (a : Address) : Decidable (m.IsSequence a) := inferInstanceAs (Decidable (_ ∧ _))

/-- The values from one up to the length. -/
def items (m : Memory) (a : Address) : List Value :=
  (List.range (m.table a).length).map fun i => (m.table a).item (i + 1)

/-- The values that the conversion of a value goes into. -/
def parts (m : Memory) : Value → List Value
  | .table a => if m.IsSequence a then m.items a else (m.table a).pairs.map Prod.snd
  | _ => []

def IsPart (m : Memory) (w v : Value) : Prop := w ∈ m.parts v

/-- One item of an open table. -/
def convertItem (m : Memory) (bound : Nat) (path : List Address) (a : Address) (i : Nat) : Conversion Argument := do
  Conversion.look (.item a (i + 1))
  m.convertInside bound (a :: path) ((m.table a).item (i + 1))

/-- One pair of an open table. -/
def convertPair (m : Memory) (bound : Nat) (path : List Address) (a : Address) (p : Key × Value) :
    Conversion (String × Argument) := do
  return (← convertInside.liftExcept (keyText p.1), ← m.convertInside bound (a :: path) p.2)

theorem convertInside_table (m : Memory) (bound : Nat) (path : List Address) (a : Address) :
    m.convertInside (bound + 1) path (.table a) =
      if a ∈ path then throw .cyclicTable
      else do
        Conversion.look (.length a)
        Conversion.look (.item a 1)
        if m.IsSequence a then
          return .array (← (List.range (m.table a).length).mapM (m.convertItem bound path a))
        else
          return .ofFields (← (m.table a).pairs.mapM (m.convertPair bound path a)) := by
  rw [convertInside]
  split
  · rfl
  · rfl

theorem items_part (sequence : m.IsSequence a) {i : Nat} (h : i ∈ List.range (m.table a).length) :
    m.IsPart ((m.table a).item (i + 1)) (.table a) := by
  rw [IsPart, parts, if_pos sequence]
  exact List.mem_map_of_mem h

theorem pairs_part (other : ¬m.IsSequence a) {p : Key × Value} (h : p ∈ (m.table a).pairs) :
    m.IsPart p.2 (.table a) := by
  rw [IsPart, parts, if_neg other]
  exact List.mem_map_of_mem h

/-- Only a table that the memory has can have parts. -/
theorem lt_size_of_part (h : m.IsPart w (.table a)) : a < m.tables.size := by
  by_contra outside
  have empty : m.table a = .empty := by
    rw [table, Array.getD, dif_neg outside]
  have other : ¬m.IsSequence a := by
    rintro ⟨some, -⟩
    rw [empty] at some
    exact absurd some (Nat.lt_irrefl 0)
  rw [IsPart, parts, if_neg other, empty] at h
  exact absurd h List.not_mem_nil

/-! ### The end of a conversion -/

/-- How many tables the memory has beside those that are open. -/
def room (m : Memory) (path : List Address) : Nat := ((Finset.range m.tables.size).filter (· ∉ path)).card

theorem room_le (m : Memory) (path : List Address) : m.room path ≤ m.tables.size := by
  have some := Finset.card_filter_le (Finset.range m.tables.size) (· ∉ path)
  rwa [Finset.card_range] at some

theorem room_cons (entered : a ∉ path) (part : m.IsPart w (.table a)) : m.room (a :: path) < m.room path := by
  have fewer : (Finset.range m.tables.size).filter (· ∉ a :: path) ⊆
      (Finset.range m.tables.size).filter (· ∉ path) := by
    intro b
    simp only [Finset.mem_filter, List.mem_cons, not_or]
    exact fun ⟨known, _, closed⟩ => ⟨known, closed⟩
  refine Finset.card_lt_card ((Finset.ssubset_iff_of_subset fewer).mpr ⟨a, ?_, ?_⟩)
  · exact Finset.mem_filter.mpr ⟨Finset.mem_range.mpr (lt_size_of_part part), entered⟩
  · simp

/-- A conversion inside of open tables that is asked for, and the conversion that asks for it. -/
def Asks (m : Memory) : List Address × Value → List Address × Value → Prop :=
  fun (path', w) (path, v) => ∃ a, v = .table a ∧ a ∉ path ∧ path' = a :: path ∧ m.IsPart w v

theorem wellFounded_asks (m : Memory) : WellFounded m.Asks := by
  refine Subrelation.wf ?_ (InvImage.wf (fun c : List Address × Value => m.room c.1) wellFounded_lt)
  rintro ⟨path', w⟩ ⟨path, v⟩ ⟨a, rfl, entered, rfl, part⟩
  exact room_cons entered part

/-- A bound on the depth does not matter as long as it is greater than the number of tables that are not open. -/
theorem convertInside_congr {bound' : Nat} (h : m.room path < bound) (h' : m.room path < bound') (v : Value) :
    m.convertInside bound path v = m.convertInside bound' path v := by
  induction bound generalizing bound' path v with
  | zero => cases h
  | succ bound ih =>
    cases bound' with
    | zero => cases h'
    | succ bound' =>
      cases v with
      | table a =>
        have inner (entered : a ∉ path) {w : Value} (part : m.IsPart w (.table a)) :
            m.convertInside bound (a :: path) w = m.convertInside bound' (a :: path) w := by
          have less := room_cons entered part
          exact ih (by omega) (by omega) w
        rw [convertInside_table, convertInside_table]
        split
        · rfl
        · next entered =>
          split
          · next sequence =>
            have each : ∀ i ∈ List.range (m.table a).length,
                m.convertItem bound path a i = m.convertItem bound' path a i := by
              intro i h
              rw [convertItem, inner entered (items_part sequence h), convertItem]
            rw [Conversion.mapM_congr each]
          · next other =>
            have each : ∀ p ∈ (m.table a).pairs, m.convertPair bound path a p = m.convertPair bound' path a p := by
              intro p h
              rw [convertPair, inner entered (pairs_part other h), convertPair]
            rw [Conversion.mapM_congr each]
      | _ => simp only [convertInside]

/-- Of a memory, a conversion knows the tables only. -/
theorem convertInside_tables {m' : Memory} (h : m'.tables = m.tables) (bound : Nat) (path : List Address) (v : Value) :
    m'.convertInside bound path v = m.convertInside bound path v := by
  induction bound generalizing path v with
  | zero => cases v <;> rfl
  | succ bound ih =>
    cases v with
    | table a =>
      have table : m'.table a = m.table a := by rw [Memory.table, h, Memory.table]
      have item : m'.convertItem bound path a = m.convertItem bound path a := by
        funext i
        rw [convertItem, table, ih, convertItem]
      have pair : m'.convertPair bound path a = m.convertPair bound path a := by
        funext p
        rw [convertPair, ih, convertPair]
      have sequence : m'.IsSequence a ↔ m.IsSequence a := by rw [IsSequence, IsSequence, table]
      simp only [convertInside_table, sequence, table, item, pair]
    | _ => rfl

theorem arguments_tables {m' : Memory} (h : m'.tables = m.tables) : m'.arguments = m.arguments := by
  have same : m'.conversion = m.conversion := by
    funext v
    rw [conversion, convertInside_tables h, h, conversion]
  funext values
  simp only [arguments, same]

/-! ### Results -/

theorem gives_item {i : Nat} : (m.convertItem bound path a i).Gives seen x seen' ↔
    (m.convertInside bound (a :: path) ((m.table a).item (i + 1))).Gives (.item a (i + 1) :: seen) x seen' := by
  rw [convertItem, Conversion.gives_bind]
  constructor
  · rintro ⟨_, _, look, h⟩
    rwa [← Conversion.gives_look.mp look] at h
  · exact fun h => ⟨(), _, Conversion.gives_look.mpr rfl, h⟩

theorem gives_pair {p : Key × Value} {field : String × Argument} :
    (m.convertPair bound path a p).Gives seen field seen' ↔
      keyText p.1 = .ok field.1 ∧ (m.convertInside bound (a :: path) p.2).Gives seen field.2 seen' := by
  rw [convertPair, Conversion.gives_bind]
  constructor
  · rintro ⟨key, _, read, h⟩
    obtain ⟨x, _, value, h⟩ := Conversion.gives_bind.mp h
    obtain ⟨rfl, rfl⟩ := Conversion.gives_pure.mp h
    obtain ⟨text, rfl⟩ := Conversion.gives_liftExcept.mp read
    exact ⟨text, value⟩
  · rintro ⟨text, value⟩
    exact ⟨_, _, Conversion.gives_liftExcept.mpr ⟨text, rfl⟩, Conversion.gives_bind.mpr ⟨_, _, value, rfl⟩⟩

/-- A table that is converted is not open, and is made of the results for its parts. -/
theorem gives_table : (m.convertInside (bound + 1) path (.table a)).Gives seen x seen' ↔
    a ∉ path ∧
      ((m.IsSequence a ∧ ∃ xs, x = .array xs ∧
        ((List.range (m.table a).length).mapM (m.convertItem bound path a)).Gives
          (.item a 1 :: .length a :: seen) xs seen') ∨
      (¬m.IsSequence a ∧ ∃ fields, x = .ofFields fields ∧
        ((m.table a).pairs.mapM (m.convertPair bound path a)).Gives
          (.item a 1 :: .length a :: seen) fields seen')) := by
  rw [convertInside_table]
  constructor
  · intro h
    split at h
    · exact absurd h Conversion.not_gives_throw
    next entered =>
    refine ⟨entered, ?_⟩
    obtain ⟨_, _, look, h⟩ := Conversion.gives_bind.mp h
    obtain rfl := Conversion.gives_look.mp look
    obtain ⟨_, _, look, h⟩ := Conversion.gives_bind.mp h
    obtain rfl := Conversion.gives_look.mp look
    split at h
    · next sequence =>
      obtain ⟨xs, _, each, h⟩ := Conversion.gives_bind.mp h
      obtain ⟨rfl, rfl⟩ := Conversion.gives_pure.mp h
      exact .inl ⟨sequence, xs, rfl, each⟩
    · next other =>
      obtain ⟨fields, _, each, h⟩ := Conversion.gives_bind.mp h
      obtain ⟨rfl, rfl⟩ := Conversion.gives_pure.mp h
      exact .inr ⟨other, fields, rfl, each⟩
  · rintro ⟨entered, h⟩
    rw [if_neg entered]
    refine Conversion.gives_bind.mpr ⟨(), _, Conversion.gives_look.mpr rfl,
      Conversion.gives_bind.mpr ⟨(), _, Conversion.gives_look.mpr rfl, ?_⟩⟩
    rcases h with ⟨sequence, xs, rfl, each⟩ | ⟨other, fields, rfl, each⟩
    · rw [if_pos sequence]
      exact Conversion.gives_bind.mpr ⟨xs, _, each, rfl⟩
    · rw [if_neg other]
      exact Conversion.gives_bind.mpr ⟨fields, _, each, rfl⟩

/-- The conversion of the value gives the result, after whatever looks. -/
def Converts (m : Memory) (bound : Nat) (path : List Address) (v : Value) (x : Argument) : Prop :=
  ∀ seen, ∃ seen', (m.convertInside bound path v).Gives seen x seen'

theorem converts_sequence (sequence : m.IsSequence a) (entered : a ∉ path) {xs : List Argument}
    (h : List.Forall₂ (m.Converts bound (a :: path)) (m.items a) xs) :
    m.Converts (bound + 1) path (.table a) (.array xs) := by
  intro seen
  have each : List.Forall₂ (fun i x => ∀ seen, ∃ seen', (m.convertItem bound path a i).Gives seen x seen')
      (List.range (m.table a).length) xs := by
    refine (List.forall₂_map_left_iff.mp h).imp fun i x converts seen => ?_
    obtain ⟨seen', gives⟩ := converts (.item a (i + 1) :: seen)
    exact ⟨seen', gives_item.mpr gives⟩
  obtain ⟨seen', gives⟩ := Conversion.mapM_gives each (.item a 1 :: .length a :: seen)
  exact ⟨seen', gives_table.mpr ⟨entered, .inl ⟨sequence, xs, rfl, gives⟩⟩⟩

theorem converts_pairs (other : ¬m.IsSequence a) (entered : a ∉ path) {fields : List (String × Argument)}
    (h : List.Forall₂ (fun p field => keyText p.1 = .ok field.1 ∧ m.Converts bound (a :: path) p.2 field.2)
      (m.table a).pairs fields) :
    m.Converts (bound + 1) path (.table a) (.ofFields fields) := by
  intro seen
  have each : List.Forall₂ (fun p field => ∀ seen, ∃ seen', (m.convertPair bound path a p).Gives seen field seen')
      (m.table a).pairs fields := by
    refine h.imp fun p field both seen => ?_
    obtain ⟨key, converts⟩ := both
    obtain ⟨seen', gives⟩ := converts seen
    exact ⟨seen', gives_pair.mpr ⟨key, gives⟩⟩
  obtain ⟨seen', gives⟩ := Conversion.mapM_gives each (.item a 1 :: .length a :: seen)
  exact ⟨seen', gives_table.mpr ⟨entered, .inr ⟨other, fields, rfl, gives⟩⟩⟩

end Memory

end Provisioning.Config
