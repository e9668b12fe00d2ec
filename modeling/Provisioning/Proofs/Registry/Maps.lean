import Provisioning.Proofs.Registry.FailedCalls

/-! A registry as maps within maps: its subjects, under each its actions, under each of these its platforms. An
insertion makes the entries of its subject and its action before it looks whether the platform is taken, and leaves
them when it is refused. No empty entry is ever left, for in a new one no platform is taken: the maps answer and list
what the list of bindings does. -/

namespace Provisioning

instance : Std.TransOrd Platform where
  eq_swap {p q} := by cases p <;> cases q <;> rfl
  isLE_trans {p q s} := by cases p <;> cases q <;> cases s <;> decide

instance : Std.LawfulEqOrd Platform where
  eq_of_compare {p q} := by cases p <;> cases q <;> decide

variable {ρ : Type}

/-- The actions of a subject, each with its recipes by their platforms. -/
abbrev ActionMap (ρ : Type) := Std.TreeMap String (Std.TreeMap Platform ρ)

/-- The subjects with their actions. -/
structure RegistryMaps (ρ : Type) where
  subjects : Std.TreeMap String (ActionMap ρ)

namespace RegistryMaps

def empty : RegistryMaps ρ := ⟨∅⟩

/-- Puts an action's recipes under its two names. -/
def enter (m : RegistryMaps ρ) (subject action : String) (platforms : Std.TreeMap Platform ρ) : RegistryMaps ρ :=
  ⟨m.subjects.insert subject ((m.subjects.getD subject ∅).insert action platforms)⟩

/-- Adds a recipe under its names. Both entries are made first; a refused recipe leaves them. -/
def insert (m : RegistryMaps ρ) (b : Binding ρ) : Except RegistrationError Unit × RegistryMaps ρ :=
  let platforms := (m.subjects.getD b.subject ∅).getD b.action ∅
  if platforms.contains b.platform then (.error b.duplicate, m.enter b.subject b.action platforms)
  else (.ok (), m.enter b.subject b.action (platforms.insert b.platform b.recipe))

/-- Binds a recipe on several platforms, in their order up to the first duplicate. -/
def insertOn (m : RegistryMaps ρ) (subject action : String) (recipe : ρ) :
    List Platform → Except RegistrationError Unit × RegistryMaps ρ
  | [] => (.ok (), m)
  | p :: ps =>
    match m.insert ⟨subject, action, p, recipe⟩ with
    | (.ok (), m) => m.insertOn subject action recipe ps
    | (.error e, m) => (.error e, m)

def perform (m : RegistryMaps ρ) : Registration ρ → Except RegistrationError Unit × RegistryMaps ρ
  | .one b => m.insert b
  | .everywhere subject action recipe => m.insertOn subject action recipe Platform.all

def after (calls : List (Registration ρ)) : RegistryMaps ρ :=
  calls.foldl (fun m call => (m.perform call).2) .empty

def resolve (m : RegistryMaps ρ) (subject : String) (action : Option String) (platform : Platform) :
    Except DispatchError ρ := do
  let some actions := m.subjects[subject]? | .error (.unknownSubject subject)
  let some action := action | .error (.missingAction subject)
  let some platforms := actions[action]? | .error (.unknownAction subject action)
  let some recipe := platforms[platform]? | .error (.noImplementation subject action platform)
  .ok recipe

def actions (m : RegistryMaps ρ) (subject : String) : List (String × List Platform) :=
  (m.subjects.getD subject ∅).toList.map fun x => (x.1, x.2.keys)

/-! ### Look-ups -/

def platforms? (m : RegistryMaps ρ) (subject action : String) : Option (Std.TreeMap Platform ρ) :=
  (m.subjects.getD subject ∅)[action]?

def recipe? (m : RegistryMaps ρ) (subject action : String) (platform : Platform) : Option ρ :=
  ((m.subjects.getD subject ∅).getD action ∅)[platform]?

variable {m : RegistryMaps ρ} {subject action : String} {platforms : Std.TreeMap Platform ρ}

theorem mem_enter {s : String} : s ∈ (m.enter subject action platforms).subjects ↔ subject = s ∨ s ∈ m.subjects := by
  simp [enter]

theorem platforms?_enter (s a : String) : (m.enter subject action platforms).platforms? s a =
    if subject = s ∧ action = a then some platforms else m.platforms? s a := by
  by_cases same : subject = s
  · obtain rfl := same
    simp [enter, platforms?, Std.TreeMap.getElem?_insert]
  · simp [enter, platforms?, Std.TreeMap.getD_insert, same]

theorem recipe?_eq (m : RegistryMaps ρ) (s a : String) (p : Platform) :
    m.recipe? s a p = ((m.platforms? s a).getD ∅)[p]? := by
  rw [recipe?, platforms?, Std.TreeMap.getD_eq_getD_getElem?]

theorem recipe?_enter (s a : String) (p : Platform) : (m.enter subject action platforms).recipe? s a p =
    if subject = s ∧ action = a then platforms[p]? else m.recipe? s a p := by
  rw [recipe?_eq, recipe?_eq, platforms?_enter]
  split <;> rfl

end RegistryMaps

/-! ### Keys -/

theorem ascending_keys {β : Type} (names : Std.TreeMap String β) : Ascending names.keys := by
  have less {s t : String} (lt : compare s t = .lt) : s < t := compareOfLessAndEq_eq_lt.mp lt
  exact (Std.TreeMap.ordered_keys (t := names)).imp fun lt => Text.utf8_lt (less lt)

theorem keys_platforms (platforms : Std.TreeMap Platform ρ) :
    platforms.keys = Platform.all.filter fun p => platforms[p]?.isSome := by
  have ordered : (Platform.all.filter fun p => platforms[p]?.isSome).Pairwise fun p q => compare p q = .lt :=
    List.Pairwise.filter _ (by decide)
  have perm : platforms.keys.Perm (Platform.all.filter fun p => platforms[p]?.isSome) := by
    refine (List.perm_ext_iff_of_nodup Std.TreeMap.nodup_keys (List.Nodup.filter _ (by decide))).mpr fun p => ?_
    rw [Std.TreeMap.mem_keys, List.mem_filter, Std.TreeMap.mem_iff_isSome_getElem?]
    exact ⟨fun known => ⟨by cases p <;> decide, known⟩, And.right⟩
  refine perm.eq_of_pairwise ?_ Std.TreeMap.ordered_keys ordered
  intro p q _ _ lt gt
  exact absurd gt (Std.OrientedCmp.not_lt_of_lt lt)

/-! ### Maps and bindings -/

theorem Registry.registerOn_cons (r : Registry ρ) (subject action : String) (recipe : ρ) (p : Platform)
    (platforms : List Platform) : r.registerOn subject action recipe (p :: platforms) =
      match r.insert ⟨subject, action, p, recipe⟩ with
      | (.ok (), r) => r.registerOn subject action recipe platforms
      | (.error e, r) => (.error e, r) := by
  rw [registerOn, insert]
  cases r.register subject action p recipe <;> rfl

/-- The maps have an entry for each subject and each action that is bound, and for no other, and the same recipes. -/
structure RegistryMaps.Holds (m : RegistryMaps ρ) (r : Registry ρ) : Prop where
  subject (s : String) : s ∈ m.subjects ↔ ∃ b ∈ r.bindings, b.subject = s
  action (s a : String) : (m.platforms? s a).isSome = true ↔ ∃ b ∈ r.bindings, b.Under s a
  recipe (s a : String) (p : Platform) : m.recipe? s a p = r.recipe? s a p

namespace RegistryMaps.Holds

variable {m : RegistryMaps ρ} {r : Registry ρ}

theorem empty : (RegistryMaps.empty : RegistryMaps ρ).Holds .empty where
  subject s := by simp [RegistryMaps.empty, Registry.empty]
  action s a := by simp [RegistryMaps.empty, RegistryMaps.platforms?, Registry.empty]
  recipe s a p := by simp [RegistryMaps.empty, RegistryMaps.recipe?, Registry.recipe?_eq, Registry.empty]

/-- The entries of a binding are there already. -/
theorem enter_taken (h : m.Holds r) {b : Binding ρ} (taken : (r.recipe? b.subject b.action b.platform).isSome = true) :
    (m.enter b.subject b.action ((m.subjects.getD b.subject ∅).getD b.action ∅)).Holds r := by
  obtain ⟨x, hx, ⟨sub, act⟩, -⟩ := Registry.recipe?_isSome_iff.mp taken
  constructor
  · intro s
    rw [mem_enter, h.subject, or_iff_right_iff_imp]
    rintro rfl
    exact ⟨x, hx, sub⟩
  · intro s a
    rw [platforms?_enter]
    split
    · next same =>
      obtain ⟨rfl, rfl⟩ := same
      exact iff_of_true rfl ⟨x, hx, sub, act⟩
    · exact h.action s a
  · intro s a p
    rw [recipe?_enter]
    split
    · next same =>
      obtain ⟨rfl, rfl⟩ := same
      exact h.recipe b.subject b.action p
    · exact h.recipe s a p

theorem enter_free (h : m.Holds r) {b : Binding ρ} (free : r.recipe? b.subject b.action b.platform = none) :
    (m.enter b.subject b.action (((m.subjects.getD b.subject ∅).getD b.action ∅).insert b.platform b.recipe)).Holds
      (r.extended b) := by
  constructor
  · intro s
    rw [mem_enter, h.subject, Registry.extended]
    simp [or_and_right, exists_or, or_comm]
  · intro s a
    rw [platforms?_enter]
    split
    · next same => exact iff_of_true rfl ⟨b, by simp [Registry.extended], same⟩
    · next other =>
      rw [h.action, Registry.exists_extended_iff]
      exact fun same => absurd same other
  · intro s a p
    rw [recipe?_enter]
    split
    · next same =>
      obtain ⟨rfl, rfl⟩ := same
      rw [Std.TreeMap.getElem?_insert]
      by_cases eq : b.platform = p
      · obtain rfl := eq
        simp [Registry.recipe?_extended free]
      · have other : ¬b.Names b.subject b.action p := fun named => eq named.2
        rw [Registry.recipe?_extended_of_ne other, ← h.recipe]
        simp [eq, recipe?]
    · next other => rw [h.recipe, Registry.recipe?_extended_of_ne fun named => other named.1]

/-- An insertion is refused by the maps exactly if it is by the bindings. -/
theorem insert (h : m.Holds r) (b : Binding ρ) :
    (m.insert b).1 = (r.insert b).1 ∧ (m.insert b).2.Holds (r.insert b).2 := by
  have same := h.recipe b.subject b.action b.platform
  unfold RegistryMaps.insert Registry.insert Registry.register
  rw [recipe?] at same
  simp only [Std.TreeMap.contains_eq_isSome_getElem?, same]
  cases found : r.recipe? b.subject b.action b.platform with
  | some x => exact ⟨rfl, h.enter_taken (by rw [found]; rfl)⟩
  | none => exact ⟨rfl, h.enter_free found⟩

theorem insertOn (h : m.Holds r) (subject action : String) (recipe : ρ) (platforms : List Platform) :
    (m.insertOn subject action recipe platforms).1 = (r.registerOn subject action recipe platforms).1 ∧
      (m.insertOn subject action recipe platforms).2.Holds (r.registerOn subject action recipe platforms).2 := by
  induction platforms generalizing m r with
  | nil => exact ⟨rfl, h⟩
  | cons p rest ih =>
    obtain ⟨same, holds⟩ := h.insert ⟨subject, action, p, recipe⟩
    rw [RegistryMaps.insertOn, Registry.registerOn_cons]
    generalize m.insert ⟨subject, action, p, recipe⟩ = left at same holds
    generalize r.insert ⟨subject, action, p, recipe⟩ = right at same holds
    obtain ⟨result, m⟩ := left
    obtain ⟨_, r⟩ := right
    obtain rfl := same
    cases result with
    | ok _ => exact ih holds
    | error e => exact ⟨rfl, holds⟩

theorem perform (h : m.Holds r) (call : Registration ρ) :
    (m.perform call).1 = (call.perform r).1 ∧ (m.perform call).2.Holds (call.perform r).2 := by
  cases call with
  | one b => exact h.insert b
  | everywhere subject action recipe => exact h.insertOn subject action recipe Platform.all

theorem after (calls : List (Registration ρ)) : (RegistryMaps.after calls).Holds (Registry.after calls) :=
  List.foldl_rel empty fun call _ _ _ holds => (holds.perform call).2

/-! ### Answers and lists -/

theorem resolve (h : m.Holds r) (subject : String) (action : Option String) (platform : Platform) :
    m.resolve subject action platform = r.resolve subject action platform := by
  unfold RegistryMaps.resolve Registry.resolve
  have known : r.hasSubject subject = m.subjects[subject]?.isSome := by
    rw [Bool.eq_iff_iff, Registry.hasSubject_iff, ← h.subject, Std.TreeMap.mem_iff_isSome_getElem?]
  rw [known]
  cases entry : m.subjects[subject]? with
  | none => rfl
  | some actions =>
    cases action with
    | none => rfl
    | some action =>
      have under : m.platforms? subject action = actions[action]? := by
        rw [platforms?, Std.TreeMap.getD_eq_getD_getElem?, entry, Option.getD_some]
      have bound : r.hasAction subject action = actions[action]?.isSome := by
        rw [Bool.eq_iff_iff, Registry.hasAction_iff, ← h.action, under]
      have recipe := h.recipe subject action platform
      rw [recipe?_eq, under] at recipe
      simp only [Option.isSome_some, bound, ← recipe]
      cases actions[action]? with
      | none => rfl
      | some platforms =>
        simp only [Option.getD_some]
        cases platforms[platform]? <;> rfl

theorem subjects (h : m.Holds r) : m.subjects.keys = r.subjects := by
  refine (ascending_keys m.subjects).ext (Registry.sortedNames_ascending _) fun s => ?_
  rw [Std.TreeMap.mem_keys, h.subject, Registry.mem_subjects]

theorem actions (h : m.Holds r) (subject : String) : m.actions subject = r.actions subject := by
  have names : (m.subjects.getD subject ∅).keys = r.actionNames subject := by
    refine (ascending_keys _).ext (Registry.sortedNames_ascending _) fun a => ?_
    rw [Std.TreeMap.mem_keys, Std.TreeMap.mem_iff_isSome_getElem?, Registry.mem_actionNames]
    exact h.action subject a
  rw [Registry.actions, ← names, ← Std.TreeMap.map_fst_toList_eq_keys, List.map_map, RegistryMaps.actions]
  refine List.map_congr_left fun x listed => ?_
  have entry : (m.subjects.getD subject ∅)[x.1]? = some x.2 := Std.TreeMap.mem_toList_iff_getElem?_eq_some.mp listed
  refine congrArg (Prod.mk x.1) ((keys_platforms x.2).trans (List.filter_congr fun p _ => ?_))
  rw [← h.recipe, recipe?_eq, platforms?, entry, Option.getD_some]

end RegistryMaps.Holds

/-- Whatever calls were made, failed ones among them, the maps have entries for what is bound and no others. They refuse
what the bindings refuse, and answer and list the same. -/
theorem maps_agree (calls : List (Registration ρ)) :
    let m := RegistryMaps.after calls
    let r := Registry.after calls
    m.Holds r ∧ (∀ call, (m.perform call).1 = (call.perform r).1) ∧
      (∀ subject action platform, m.resolve subject action platform = r.resolve subject action platform) ∧
      m.subjects.keys = r.subjects ∧ ∀ subject, m.actions subject = r.actions subject := by
  intro m r
  have holds : m.Holds r := .after calls
  exact ⟨holds, fun call => (holds.perform call).1, holds.resolve, holds.subjects, holds.actions⟩

end Provisioning
