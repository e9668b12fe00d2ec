import Provisioning.Proofs.Config.Looks
import Provisioning.Proofs.Text.Ends

/-! What a statement receives of the values of its call. What is `nil` at the end does not count, a function at the end is
the block, and everything before it has to be an argument. -/

namespace Provisioning.Config

/-- The function that a value is. -/
def Value.function? : Value → Option Address
  | .function a => some a
  | _ => none

theorem Value.isNil_iff {v : Value} : v.isNil = true ↔ v = .nil := by
  cases v with
  | nil => exact ⟨fun _ => rfl, fun _ => rfl⟩
  | _ => exact ⟨nofun, nofun⟩

namespace Memory

variable {m : Memory} {v : Value} {x : Argument} {values before : List Value} {args : List Argument}
  {block : Option Address} {seen seen' : List Look}

/-! ### Results -/

/-- What a statement receives of values, whatever was looked at. -/
def received (m : Memory) (values : List Value) : Except Fault (List Argument × Option Address) :=
  ((m.arguments values).run.run []).1

/-- The values before a function at the end, and the function. -/
def detached (values : List Value) : List Value × Option Address :=
  match values.getLast? with
  | some (.function a) => (values.dropLast, some a)
  | _ => (values, none)

/-- A value before the block. -/
def conversionBefore (m : Memory) : Value → Conversion Argument
  | .function _ => throw .blockNotLast
  | v => m.conversion v

theorem arguments_eq (m : Memory) (values : List Value) : m.arguments values = (do
    let (before, block) := detached (Text.dropEndWhile Value.isNil values)
    return (← before.mapM m.conversionBefore, block)) := rfl

theorem received_eq_ok_iff : m.received values = .ok (args, block) ↔
    ∃ seen', (m.arguments values).Gives [] (args, block) seen' :=
  ⟨fun h => ⟨_, Prod.ext h rfl⟩, fun ⟨_, h⟩ => congrArg Prod.fst h⟩

/-! ### Blocks -/

theorem detached_block (before : List Value) (a : Address) :
    detached (before ++ [.function a]) = (before, some a) := by
  simp [detached]

theorem detached_of_ne (h : ∀ a, values.getLast? ≠ some (.function a)) : detached values = (values, none) := by
  unfold detached
  split
  · next last => exact absurd last (h _)
  · rfl

/-- The values are those before the block and the block. -/
theorem eq_of_detached (h : detached values = (before, block)) : values = before ++ block.toList.map .function := by
  unfold detached at h
  split at h
  · next last =>
    obtain ⟨rfl, rfl⟩ := Prod.mk.inj h
    exact (List.dropLast_append_getLast? _ last).symm
  · obtain ⟨rfl, rfl⟩ := Prod.mk.inj h
    exact (List.append_nil _).symm

/-! ### Conversions -/

theorem not_convert_nil : m.convert .nil ≠ .ok x := nofun

theorem not_convert_function {a : Address} : m.convert (.function a) ≠ .ok x := nofun

theorem function?_of_convert (h : m.convert v = .ok x) : v.function? = none := by
  cases v with
  | function a => exact absurd h not_convert_function
  | _ => rfl

theorem convert_of_gives (h : (m.conversionBefore v).Gives seen x seen') : m.convert v = .ok x := by
  cases v with
  | function a => exact absurd h Conversion.not_gives_throw
  | _ => exact convert_eq_ok.mpr (unfolds_of_gives h)

theorem gives_of_convert (h : m.convert v = .ok x) (seen : List Look) :
    ∃ seen', (m.conversionBefore v).Gives seen x seen' := by
  have deep : m.room [] < m.tables.size + 1 := Nat.lt_succ_of_le (m.room_le [])
  have converts := (convert_eq_ok.mp h).converts deep (fun a opened => absurd opened List.not_mem_nil) seen
  cases v with
  | function a => exact absurd h not_convert_function
  | _ => exact converts

theorem exists_gives_iff : (∃ seen', (before.mapM m.conversionBefore).Gives [] args seen') ↔
    List.Forall₂ (fun v x => m.convert v = .ok x) before args := by
  constructor
  · rintro ⟨seen', h⟩
    exact (Conversion.gives_mapM h).imp fun v x ⟨_, _, gives⟩ => convert_of_gives gives
  · intro h
    exact Conversion.mapM_gives (h.imp fun v x converted => gives_of_convert converted) []

theorem exists_convert (h : List.Forall₂ (fun v x => m.convert v = .ok x) before args) (mem : v ∈ before) :
    ∃ x, m.convert v = .ok x := by
  obtain ⟨x, pair⟩ := exists_mem_zip h.length_eq mem
  exact ⟨x, List.forall₂_zip h pair⟩

/-- Values of which the last one is not `nil` are received exactly if they are values with arguments and then at most one
function. -/
theorem received_eq_ok (last : values.getLast? ≠ some .nil) : m.received values = .ok (args, block) ↔
    ∃ before, values = before ++ block.toList.map .function ∧
      List.Forall₂ (fun v x => m.convert v = .ok x) before args := by
  have kept : Text.dropEndWhile Value.isNil values = values :=
    Text.dropEndWhile_eq_self fun v h => Bool.eq_false_iff.mpr fun nil => last (Value.isNil_iff.mp nil ▸ h)
  rw [received_eq_ok_iff, arguments_eq, kept]
  generalize parts : detached values = p
  obtain ⟨before, found⟩ := p
  constructor
  · rintro ⟨seen', h⟩
    obtain ⟨xs, _, each, h⟩ := Conversion.gives_bind.mp h
    obtain ⟨pair, -⟩ := Conversion.gives_pure.mp h
    obtain ⟨rfl, rfl⟩ := Prod.mk.inj pair
    exact ⟨before, eq_of_detached parts, exists_gives_iff.mp ⟨_, each⟩⟩
  · rintro ⟨front, rfl, each⟩
    have split : detached (front ++ block.toList.map .function) = (front, block) := by
      cases block with
      | some a => exact detached_block front a
      | none =>
        have plain : ∀ a, front.getLast? ≠ some (.function a) := by
          intro a function
          obtain ⟨x, converted⟩ := exists_convert each (List.mem_of_getLast? function)
          exact not_convert_function converted
        simpa using detached_of_ne plain
    obtain ⟨rfl, rfl⟩ := Prod.mk.inj (parts.symm.trans split)
    obtain ⟨seen', gives⟩ := exists_gives_iff.mpr each
    exact ⟨seen', Conversion.gives_bind.mpr ⟨args, seen', gives, rfl⟩⟩

/-- The block is the function that the last value is. -/
theorem block_of_received (last : values.getLast? ≠ some .nil) (h : m.received values = .ok (args, block)) :
    block = values.getLast?.bind Value.function? := by
  obtain ⟨before, rfl, each⟩ := (received_eq_ok last).mp h
  cases block with
  | some a => simp [Value.function?]
  | none =>
    cases found : before.getLast? with
    | none => simp [found]
    | some v =>
      obtain ⟨x, converted⟩ := exists_convert each (List.mem_of_getLast? found)
      simp [found, function?_of_convert converted]

/-- Every value has an argument, but the last one may be a function instead. -/
def Receivable (m : Memory) (values : List Value) : Prop :=
  ∀ front v after, values = front ++ v :: after → (∃ x, m.convert v = .ok x) ∨ after = [] ∧ ∃ a, v = .function a

theorem receivable_iff (last : values.getLast? ≠ some .nil) : (∃ r, m.received values = .ok r) ↔ m.Receivable values := by
  constructor
  · rintro ⟨⟨args, block⟩, h⟩ front v after parts
    obtain ⟨before, eq, each⟩ := (received_eq_ok last).mp h
    rw [eq] at parts
    have found {rest : List Value} (inside : before = front ++ v :: rest) : ∃ x, m.convert v = .ok x :=
      exists_convert each (inside ▸ List.mem_append_right _ List.mem_cons_self)
    cases block with
    | none => exact .inl (found ((List.append_nil before).symm.trans parts))
    | some a =>
      -- The function is the last value, and all others are before it.
      rcases List.eq_nil_or_concat after with rfl | ⟨rest, w, rfl⟩
      · exact .inr ⟨rfl, a, (List.cons.inj (List.append_inj_right' parts rfl)).1.symm⟩
      · have regrouped : front ++ v :: rest.concat w = (front ++ v :: rest) ++ [w] := by simp
        exact .inl (found (List.append_inj' (parts.trans regrouped) rfl).1)
  · intro receivable
    have received (before : List Value) (block : Option Address) (eq : values = before ++ block.toList.map .function)
        (each : ∀ v ∈ before, ∃ x, m.convert v = .ok x) : ∃ r, m.received values = .ok r := by
      obtain ⟨args, each⟩ := exists_forall₂ each
      exact ⟨(args, block), (received_eq_ok last).mpr ⟨before, eq, each⟩⟩
    rcases List.eq_nil_or_concat values with empty | ⟨before, w, eq⟩
    · exact received [] none empty nofun
    · rw [List.concat_eq_append] at eq
      have each : ∀ v ∈ before, ∃ x, m.convert v = .ok x := by
        intro v mem
        obtain ⟨front, rest, rfl⟩ := List.append_of_mem mem
        have inner : ¬(rest ++ [w] = [] ∧ ∃ a, v = .function a) := by simp
        exact (receivable front v (rest ++ [w]) (by simp [eq])).resolve_right inner
      rcases receivable before w [] eq with converted | ⟨-, a, rfl⟩
      · refine received (before ++ [w]) none (by simp [eq]) fun v mem => ?_
        rcases List.mem_append.mp mem with inside | here
        · exact each v inside
        · rwa [List.mem_singleton.mp here]
      · exact received before (some a) eq each

/-! ### One conversion after the other -/

/-- The memory after a conversion. -/
def lookedBy (m : Memory) (v : Value) : Memory := ((m.conversion v).run.run []).2.reverse.foldl looked m

/-- The values as arguments, each in the memory that the conversion before it left. -/
def convertInTurn : Memory → List Value → Except Fault (List Argument)
  | _, [] => .ok []
  | m, v :: values => do
    let x ← m.convert v
    return x :: (← convertInTurn (m.lookedBy v) values)

theorem kept_lookedBy (sane : ∀ a, (m.table a).Sane) (h : m.convert v = .ok x) : m.Kept (m.lookedBy v) :=
  kept_of_gives sane (x := x) (Prod.ext h rfl)

theorem Kept.convert {m' : Memory} (kept : m.Kept m') : m'.convert = m.convert := by
  funext v
  rw [Memory.convert, kept.conversion, Memory.convert]

/-- The looks of the conversions before it do not change what a value is converted to. -/
theorem convertInTurn_eq (sane : ∀ a, (m.table a).Sane) (values : List Value) :
    m.convertInTurn values = values.mapM m.convert := by
  induction values generalizing m with
  | nil => rfl
  | cons v values ih =>
    rw [convertInTurn, List.mapM_cons]
    cases converted : m.convert v with
    | error e => rfl
    | ok x =>
      have kept := kept_lookedBy sane converted
      have rest := ih fun a => (kept.table a).sane
      rw [kept.convert] at rest
      rw [rest]

/-! ### Calls -/

/-- `nil` at the end of the values makes no difference. Of the values before it, each has to have an argument, and only
the last one may be a function instead, which is the block then; so a statement fails if there is `nil` or a function
before another value. The arguments are the values' own ones in their order, though the conversions before them have moved
edges of tables. -/
theorem values_received (m : Memory) (values : List Value) :
    (∀ n, m.arguments (values ++ List.replicate n .nil) = m.arguments values) ∧
    ∃ written n, values = written ++ List.replicate n .nil ∧ written.getLast? ≠ some .nil ∧
      (∀ args block, m.received values = .ok (args, block) ↔
        ∃ before, written = before ++ block.toList.map .function ∧
          List.Forall₂ (fun v x => m.convert v = .ok x) before args) ∧
      ((∃ r, m.received values = .ok r) ↔ m.Receivable written) ∧
      (∀ args block, m.received values = .ok (args, block) → block = written.getLast?.bind Value.function?) ∧
      (∀ front v after, written = front ++ v :: after → after ≠ [] → v = .nil ∨ (∃ a, v = .function a) →
        ∃ e, m.received values = .error e) ∧
      ((∀ a, (m.table a).Sane) → ∀ before, m.convertInTurn before = before.mapM m.convert) := by
  have absorbed (values : List Value) (n : Nat) :
      m.arguments (values ++ List.replicate n .nil) = m.arguments values := by
    have nils : ∀ v ∈ List.replicate n Value.nil, v.isNil = true :=
      fun v mem => Value.isNil_iff.mpr (List.eq_of_mem_replicate mem)
    rw [arguments_eq, Text.dropEndWhile_append_of_pos _ nils, ← arguments_eq]
  obtain ⟨tail, parts, nils⟩ := Text.exists_dropped Value.isNil values
  have last : (Text.dropEndWhile Value.isNil values).getLast? ≠ some .nil :=
    fun nil => Bool.false_ne_true (Text.of_getLast?_dropEndWhile nil).symm
  rw [List.eq_replicate_iff.mpr ⟨rfl, fun v mem => Value.isNil_iff.mp (nils v mem)⟩] at parts
  generalize Text.dropEndWhile Value.isNil values = written at parts last
  have same : m.received values = m.received written := by
    rw [received, parts, absorbed, received]
  rw [same]
  refine ⟨absorbed values, written, tail.length, parts, last, fun args block => received_eq_ok last, receivable_iff last,
    fun args block => block_of_received last, fun front v after split inner refused => ?_, convertInTurn_eq⟩
  cases result : m.received written with
  | error e => exact ⟨e, rfl⟩
  | ok r =>
    obtain ⟨x, converted⟩ := ((receivable_iff last).mp ⟨r, result⟩ front v after split).resolve_right fun h => inner h.1
    rcases refused with rfl | ⟨a, rfl⟩
    · exact absurd converted not_convert_nil
    · exact absurd converted not_convert_function

theorem values_received_table :
    let m : Memory := { empty with tables := #[Table.empty.fill 0 [.text "a", .integer 2]] }
    (∀ a, (m.table a).Sane) ∧
      m.convertInTurn [.text "b", .table 0, .table 0] =
        .ok [.string "b", .array [.string "a", .integer 2], .array [.string "a", .integer 2]] := by
  intro m
  have sane : ∀ a, (m.table a).Sane := by
    intro a
    cases a with
    | zero => exact Table.sane_empty.fill (by decide)
    | succ a => exact Table.sane_empty
  obtain ⟨-, _, _, -, -, -, -, -, -, inTurn⟩ := values_received m []
  exact ⟨sane, (inTurn sane _).trans rfl⟩

end Memory

end Provisioning.Config
