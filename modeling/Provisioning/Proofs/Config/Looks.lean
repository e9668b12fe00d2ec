import Provisioning.Proofs.Config.Length
import Provisioning.Proofs.Config.Unfolding

/-! What a conversion looks at. The looks move the edges of tables, but not so that any length would be another one:
a conversion does not disturb the conversions after it, and it is the same for a table that it comes to again. -/

namespace Provisioning.Config

namespace Memory

variable {m m' m'' : Memory} {a b : Address} {v w : Value} {x : Argument} {bound : Nat} {path : List Address}
  {seen seen' : List Look}

/-! ### Looks at tables -/

/-- All tables that are there were looked at, and no more than that. -/
structure Kept (m m' : Memory) : Prop where
  size : m'.tables.size = m.tables.size
  table (a : Address) : (m.table a).Kept (m'.table a)

theorem Kept.trans (h : m.Kept m') (h' : m'.Kept m'') : m.Kept m'' :=
  ⟨h'.size.trans h.size, fun a => (h.table a).trans (h'.table a)⟩

theorem Kept.item (h : m.Kept m') (a : Address) (n : Nat) : (m'.table a).item n = (m.table a).item n := by
  rw [(h.table a).same, Table.item_edge]

theorem Kept.pairs (h : m.Kept m') (a : Address) : (m'.table a).pairs = (m.table a).pairs := by
  rw [(h.table a).same]
  rfl

theorem table_changeTable (m : Memory) (a b : Address) (f : Table → Table) :
    (m.changeTable a f).table b = if a = b ∧ b < m.tables.size then f (m.table b) else m.table b := by
  rw [table, table, changeTable]
  simp only [Array.getD_eq_getD_getElem?, Array.getElem?_modify]
  by_cases inside : b < m.tables.size <;> by_cases same : a = b <;> simp [inside, same]

/-- A change of one table that keeps it keeps the memory. -/
theorem kept_changeTable {f : Table → Table} (sane : ∀ a, (m.table a).Sane) (kept : (m.table a).Kept (f (m.table a))) :
    m.Kept (m.changeTable a f) := by
  refine ⟨Array.size_modify .., fun b => ?_⟩
  rw [table_changeTable]
  split
  · next same =>
    obtain ⟨rfl, -⟩ := same
    exact kept
  · exact .refl (sane b)

/-- After its length was asked for, a table is settled. -/
theorem settled_looked_length (sane : ∀ a, (m.table a).Sane) (a : Address) :
    m.Kept (m.looked (.length a)) ∧ ((m.looked (.length a)).table a).Settled := by
  obtain ⟨kept, settled⟩ := Table.kept_measured (sane a)
  refine ⟨kept_changeTable sane kept, ?_⟩
  rw [looked, table_changeTable]
  split
  · exact settled
  · next outside =>
    have empty : m.table a = .empty := by
      rw [table, Array.getD, dif_neg fun inside => outside ⟨rfl, inside⟩]
    rw [empty]
    exact .inl (Nat.le_refl 0)

/-! ### Looks of conversions -/

/-- The looks, the first one first, keep every memory that was only looked at since, if the lengths of some tables were
asked for before. -/
def Harmless (m : Memory) (measured : List Address) (looks : List Look) : Prop :=
  ∀ m', m.Kept m' → (∀ a ∈ measured, (m'.table a).Settled) → m'.Kept (looks.foldl looked m')

namespace Harmless

variable {measured : List Address} {looks looks' : List Look}

theorem nil : m.Harmless measured [] := fun _ kept _ => ⟨rfl, fun b => .refl (kept.table b).sane⟩

theorem append (h : m.Harmless measured looks) (h' : m.Harmless measured looks') :
    m.Harmless measured (looks ++ looks') := by
  intro m' kept settled
  rw [List.foldl_append]
  have first := h m' kept settled
  exact first.trans (h' _ (kept.trans first) fun a known => (first.table a).settled (settled a known))

theorem weaken (h : m.Harmless [] looks) : m.Harmless measured looks :=
  fun m' kept _ => h m' kept fun _ known => absurd known List.not_mem_nil

theorem length (h : m.Harmless [a] looks) : m.Harmless [] (.length a :: looks) := by
  intro m' kept _
  obtain ⟨first, settled⟩ := settled_looked_length (fun b => (kept.table b).sane) a
  refine first.trans (h _ (kept.trans first) fun b known => ?_)
  rwa [List.mem_singleton.mp known]

/-- A look at an item of a table without gaps before its length. -/
theorem item {n : Nat} (items : ∀ j, 0 < j → j ≤ (m.table a).length → ((m.table a).item j).isNil = false)
    (inside : n ≤ (m.table a).length) : m.Harmless [a] [.item a n] := by
  intro m' kept settled
  have length := (kept.table a).length
  refine kept_changeTable (fun b => (kept.table b).sane) (Table.kept_reach_item (kept.table a).sane
    (settled a (List.mem_singleton_self a)) (fun j some before => ?_) (length ▸ inside))
  rw [kept.item]
  exact items j some (length ▸ before)

theorem first (other : ¬m.IsSequence a) : m.Harmless [a] [.item a 1] := by
  intro m' kept settled
  refine kept_changeTable (fun b => (kept.table b).sane) (Table.kept_reach_first (kept.table a).sane
    (settled a (List.mem_singleton_self a)) ?_)
  rwa [(kept.table a).length, kept.item]

end Harmless

/-- The looks that were added have a property. -/
def Adds (P : List Look → Prop) (seen seen' : List Look) : Prop := ∃ looks, seen' = looks.reverse ++ seen ∧ P looks

theorem adds_mapM {α β : Type} {P : List Look → Prop} (nil : P []) (append : ∀ {l l'}, P l → P l' → P (l ++ l'))
    {f : α → Conversion β} {l : List α} {bs : List β}
    (each : ∀ a ∈ l, ∀ seen b seen', (f a).Gives seen b seen' → Adds P seen seen')
    (h : (l.mapM f).Gives seen bs seen') : Adds P seen seen' := by
  induction l generalizing seen bs with
  | nil =>
    obtain ⟨-, rfl⟩ := Conversion.gives_pure.mp h
    exact ⟨[], rfl, nil⟩
  | cons a l ih =>
    rw [List.mapM_cons] at h
    obtain ⟨b, between, first, h⟩ := Conversion.gives_bind.mp h
    obtain ⟨bs, between', rest, h⟩ := Conversion.gives_bind.mp h
    obtain ⟨-, rfl⟩ := Conversion.gives_pure.mp h
    obtain ⟨looks, rfl, p⟩ := each a List.mem_cons_self _ _ _ first
    obtain ⟨looks', rfl, p'⟩ := ih (fun c mem => each c (List.mem_cons_of_mem a mem)) rest
    exact ⟨looks ++ looks', by simp, append p p'⟩

/-- The items of a sequence that is converted have no gaps. -/
theorem items_of_unfolds {xs : List Argument} (h : m.Unfolds (.table a) (.array xs)) :
    ∀ j, 0 < j → j ≤ (m.table a).length → ((m.table a).item j).isNil = false := by
  intro j some inside
  cases h with
  | items sequence count each =>
    have item : (m.table a).item j ∈ m.items a := by
      refine List.mem_map.mpr ⟨j - 1, List.mem_range.mpr (by omega), ?_⟩
      rw [Nat.sub_add_cancel some]
    obtain ⟨x, mem⟩ := exists_mem_zip count item
    have unfolds := each _ x mem
    cases value : (m.table a).item j with
    | nil =>
      rw [value] at unfolds
      cases unfolds
    | _ => rfl

theorem adds_of_gives (h : (m.convertInside bound path v).Gives seen x seen') :
    Adds (m.Harmless []) seen seen' := by
  induction bound generalizing path v x seen seen' with
  | zero =>
    cases v with
    | table a =>
      rw [convertInside] at h
      exact absurd h Conversion.not_gives_throw
    | _ =>
      obtain ⟨-, rfl⟩ := of_gives_leaf (by simp) h
      exact ⟨[], rfl, .nil⟩
  | succ bound ih =>
    cases v with
    | table a =>
      have unfolds := unfolds_of_gives h
      -- What follows the first two looks.
      have looks (start : m.Harmless [a] [.item a 1])
          (rest : Adds (m.Harmless [a]) (.item a 1 :: .length a :: seen) seen') : Adds (m.Harmless []) seen seen' := by
        obtain ⟨looks, rfl, harmless⟩ := rest
        exact ⟨.length a :: ([.item a 1] ++ looks), by simp, (start.append harmless).length⟩
      obtain ⟨-, ⟨sequence, xs, rfl, each⟩ | ⟨other, fields, rfl, each⟩⟩ := gives_table.mp h
      · have items := items_of_unfolds unfolds
        refine looks (.item items sequence.1) (adds_mapM .nil .append (fun i known _ _ _ gives => ?_) each)
        obtain ⟨looks, rfl, harmless⟩ := ih (gives_item.mp gives)
        have look : m.Harmless [a] [.item a (i + 1)] := .item items (List.mem_range.mp known)
        exact ⟨[.item a (i + 1)] ++ looks, by simp, look.append harmless.weaken⟩
      · refine looks (.first other) (adds_mapM .nil .append (fun p _ _ _ _ gives => ?_) each)
        obtain ⟨looks, rfl, harmless⟩ := ih (gives_pair.mp gives).2
        exact ⟨looks, rfl, harmless.weaken⟩
    | _ =>
      obtain ⟨-, rfl⟩ := of_gives_leaf (by simp) h
      exact ⟨[], rfl, .nil⟩

/-- Conversions are the same in a memory that was looked at. -/
theorem Kept.convertInside (kept : m.Kept m') (bound : Nat) (path : List Address) (v : Value) :
    m'.convertInside bound path v = m.convertInside bound path v := by
  induction bound generalizing path v with
  | zero => cases v <;> simp only [Memory.convertInside]
  | succ bound ih =>
    cases v with
    | table a =>
      have item : m'.convertItem bound path a = m.convertItem bound path a := by
        funext i
        rw [convertItem, ih, kept.item, convertItem]
      have pair : m'.convertPair bound path a = m.convertPair bound path a := by
        funext p
        rw [convertPair, ih, convertPair]
      have same : m'.IsSequence a ↔ m.IsSequence a := by
        rw [IsSequence, IsSequence, (kept.table a).length, kept.item]
      rw [convertInside_table, convertInside_table, item, pair, (kept.table a).length, kept.pairs]
      by_cases sequence : m.IsSequence a
      · rw [if_pos sequence, if_pos (same.mpr sequence)]
      · rw [if_neg sequence, if_neg (mt same.mp sequence)]
    | _ => simp only [Memory.convertInside]

theorem Kept.conversion (kept : m.Kept m') : m'.conversion = m.conversion := by
  funext w
  rw [Memory.conversion, Memory.conversion, kept.size, kept.convertInside]

/-- A conversion that succeeds keeps all tables, though it moves their edges. -/
theorem kept_of_gives {looks : List Look} (sane : ∀ a, (m.table a).Sane) (h : (m.conversion v).Gives [] x looks) :
    m.Kept (looks.reverse.foldl looked m) := by
  obtain ⟨added, rfl, harmless⟩ := adds_of_gives h
  have start : m.Kept m := ⟨rfl, fun a => .refl (sane a)⟩
  rw [List.append_nil, List.reverse_reverse]
  exact harmless m start fun _ known => absurd known List.not_mem_nil

end Memory

end Provisioning.Config
