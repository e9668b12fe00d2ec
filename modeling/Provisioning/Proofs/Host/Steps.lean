import Mathlib.Data.List.Basic
import Mathlib.Data.List.Induction
import Provisioning.Host.FileSystem
import Provisioning.Proofs.Text.Lines

/-! The steps of path texts. Joining paths puts their steps one after the other. The directory that a path lies in by
its text has the path's steps without the last one, up to steps that stay where they are. -/

namespace Provisioning.Host

open FileSystem

/-! ### Steps of parts -/

namespace FileSystem

/-- The step that a part of a path asks for. -/
def stepOf? (part : List Char) : Option Step :=
  if part = [] then none
  else if part = ['.'] then some .stay
  else if part = ['.', '.'] then some .up
  else some (.into (String.ofList part))

/-- The steps of a text without the one that a slash at its end asks for. -/
def named (cs : List Char) : List Step := (Text.splitOn '/' cs).filterMap stepOf?

/-- The steps of a text that stands behind a slash. It asks for a directory also when it is empty. -/
def marked (cs : List Char) : List Step :=
  named cs ++ if (Text.splitOn '/' cs).getLast? = some [] then [.stay] else []

/-- The steps that go somewhere. -/
def moves (steps : List Step) : List Step := steps.filter (· ≠ .stay)

theorem steps_eq (path : String) :
    steps path = if named path.toList = [] then [] else marked path.toList := by
  change (if _ ∧ named path.toList ≠ [] then named path.toList ++ [.stay] else named path.toList) = _
  unfold marked
  by_cases none : named path.toList = []
  · simp [none]
  · by_cases slash : (Text.splitOn '/' path.toList).getLast? = some [] <;> simp [none, slash]

theorem steps_cases (path : String) :
    steps path = named path.toList ∨ steps path = named path.toList ++ [.stay] := by
  rw [steps_eq, marked]
  by_cases none : named path.toList = []
  · rw [if_pos none, none]
    exact .inl rfl
  · rw [if_neg none]
    split
    · exact .inr rfl
    · exact .inl (List.append_nil _)

theorem exists_step {part : List Char} (h : part ≠ []) : ∃ step, stepOf? part = some step := by
  unfold stepOf?
  rw [if_neg h]
  split
  · exact ⟨_, rfl⟩
  · split <;> exact ⟨_, rfl⟩

theorem marked_of_parts {cs last : List Char} {before : List (List Char)}
    (h : Text.splitOn '/' cs = before ++ [last]) :
    marked cs = before.filterMap stepOf? ++ [(stepOf? last).getD .stay] := by
  rw [marked, named, h, List.filterMap_append, List.getLast?_concat]
  by_cases empty : last = []
  · simp [empty, stepOf?]
  · obtain ⟨step, eq⟩ := exists_step empty
    simp [empty, eq]

theorem named_append (a b : List Char) : named (a ++ '/' :: b) = named a ++ named b := by
  rw [named, Text.splitOn_append, List.filterMap_append]
  rfl

theorem marked_append (a b : List Char) : marked (a ++ '/' :: b) = named a ++ marked b := by
  have last : (Text.splitOn '/' a ++ Text.splitOn '/' b).getLast? = (Text.splitOn '/' b).getLast? := by
    rw [List.getLast?_append_of_ne_nil _ (Text.splitOn_ne_nil _ _)]
  rw [marked, named_append, Text.splitOn_append, last, List.append_assoc]
  rfl

theorem named_concat (a : List Char) : named (a ++ ['/']) = named a := by
  rw [named_append]
  exact List.append_nil _

theorem named_cons (a : List Char) : named ('/' :: a) = named a := named_append [] a

theorem marked_ne_nil (cs : List Char) : marked cs ≠ [] := by
  rcases List.eq_nil_or_concat (Text.splitOn '/' cs) with none | ⟨before, last, h⟩
  · exact absurd none (Text.splitOn_ne_nil _ _)
  · rw [List.concat_eq_append] at h
    simp [marked_of_parts h]

end FileSystem

/-! ### Names -/

/-- A text that stands for one step into an entry. -/
structure IsName (name : String) : Prop where
  ne_empty : name ≠ ""
  ne_dot : name ≠ "."
  ne_dots : name ≠ ".."
  no_slash : '/' ∉ name.toList
  no_nul : '\x00' ∉ name.toList

instance (name : String) : Decidable (IsName name) :=
  decidable_of_iff (name ≠ "" ∧ name ≠ "." ∧ name ≠ ".." ∧ '/' ∉ name.toList ∧ '\x00' ∉ name.toList)
    ⟨fun ⟨a, b, c, d, e⟩ => ⟨a, b, c, d, e⟩, fun h => ⟨h.1, h.2, h.3, h.4, h.5⟩⟩

namespace IsName

variable {name : String}

theorem step (h : IsName name) : stepOf? name.toList = some (.into name) := by
  have empty : name.toList ≠ [] := fun eq => h.ne_empty (String.toList_inj.mp eq)
  have dot : name.toList ≠ ['.'] := fun eq => h.ne_dot (String.toList_inj.mp eq)
  have dots : name.toList ≠ ['.', '.'] := fun eq => h.ne_dots (String.toList_inj.mp eq)
  rw [stepOf?, if_neg empty, if_neg dot, if_neg dots, String.ofList_toList]

theorem named (h : IsName name) : named name.toList = [.into name] := by
  rw [FileSystem.named, Text.splitOn_of_not_mem h.no_slash, List.filterMap_cons, h.step]
  rfl

theorem marked (h : IsName name) : marked name.toList = [.into name] := by
  have sole : Text.splitOn '/' name.toList = [] ++ [name.toList] := Text.splitOn_of_not_mem h.no_slash
  rw [marked_of_parts sole, h.step]
  rfl

theorem relative (h : IsName name) : Path.isAbsolute name = false := by
  refine decide_eq_false fun first => h.no_slash ?_
  exact List.mem_of_head? first

end IsName

/-! ### Joined paths -/

namespace Path

variable {base part : String}

/-- What stands before a part that is joined to a path. -/
def lead (cs : List Char) : List Char := if cs = [] ∨ cs.getLast? = some '/' then cs else cs ++ ['/']

theorem toList_join (relative : isAbsolute part = false) :
    (join base part).toList = lead base.toList ++ part.toList := by
  by_cases empty : base = ""
  · simp [join, lead, empty]
  · have inside : ¬ (isAbsolute part ∨ base.isEmpty) := by simp [relative, empty]
    rw [join, if_neg inside, lead]
    split
    · next slash => rw [if_pos (.inr slash), String.toList_append]
    · next other => simp [empty, other]

/-- The lead of a path ends with a slash, which the path may have at its end already. -/
theorem exists_lead {cs : List Char} (ne : cs ≠ []) :
    ∃ front, lead cs = front ++ ['/'] ∧ named front = named cs ∧ cs <+: lead cs := by
  unfold lead
  split
  · next h =>
    have ends := List.dropLast_append_getLast? _ (h.resolve_left ne)
    refine ⟨cs.dropLast, ends.symm, ?_, List.prefix_rfl⟩
    conv => rhs; rw [← ends, named_concat]
  · exact ⟨cs, rfl, rfl, List.prefix_append _ _⟩

theorem named_lead_append (cs more : List Char) : named (lead cs ++ more) = named cs ++ named more := by
  by_cases empty : cs = []
  · subst empty
    rfl
  · obtain ⟨front, eq, same, -⟩ := exists_lead empty
    rw [eq, List.append_assoc, List.singleton_append, named_append, same]

theorem marked_lead_append (cs more : List Char) : marked (lead cs ++ more) = named cs ++ marked more := by
  by_cases empty : cs = []
  · subst empty
    rfl
  · obtain ⟨front, eq, same, -⟩ := exists_lead empty
    rw [eq, List.append_assoc, List.singleton_append, marked_append, same]

/-- Joining one part after the other puts the second behind the lead of the first. -/
theorem lead_lead_append {cs part : List Char} (h : '/' ∉ part) : lead (lead cs ++ part) = lead cs ++ lead part := by
  by_cases none : part = []
  · subst none
    have ends : lead cs = [] ∨ (lead cs).getLast? = some '/' := by
      by_cases empty : cs = []
      · exact .inl (by rw [empty]; rfl)
      · obtain ⟨front, eq, -⟩ := exists_lead empty
        exact .inr (by rw [eq, List.getLast?_concat])
    rw [List.append_nil, lead, if_pos ends]
    exact (List.append_nil _).symm
  · have last : part.getLast? ≠ some '/' := fun slash => h (List.mem_of_getLast? slash)
    have whole : ¬(lead cs ++ part = [] ∨ (lead cs ++ part).getLast? = some '/') := by
      rw [List.getLast?_append_of_ne_nil _ none]
      simp [none, last]
    rw [lead, if_neg whole, lead.eq_def part, if_neg (not_or.mpr ⟨none, last⟩), List.append_assoc]

theorem named_join (relative : isAbsolute part = false) :
    named (join base part).toList = named base.toList ++ named part.toList := by
  rw [toList_join relative, named_lead_append]

theorem marked_join (relative : isAbsolute part = false) :
    marked (join base part).toList = named base.toList ++ marked part.toList := by
  rw [toList_join relative, marked_lead_append]

theorem prefix_join (ne : base ≠ "") (relative : isAbsolute part = false) :
    base.toList <+: (join base part).toList := by
  obtain ⟨-, -, -, starts⟩ := exists_lead (mt String.toList_eq_nil_iff.mp ne)
  rw [toList_join relative]
  exact starts.trans (List.prefix_append _ _)

theorem isAbsolute_of_prefix {path : String} (ne : base ≠ "") (h : base.toList <+: path.toList) :
    isAbsolute path = isAbsolute base := by
  obtain ⟨more, eq⟩ := h
  obtain ⟨c, cs, first⟩ := List.exists_cons_of_ne_nil fun none => ne (String.toList_inj.mp none)
  simp [isAbsolute, ← eq, first]

theorem isAbsolute_join (ne : base ≠ "") (relative : isAbsolute part = false) :
    isAbsolute (join base part) = isAbsolute base :=
  isAbsolute_of_prefix ne (prefix_join ne relative)

theorem mem_join {c : Char} (ne : base ≠ "") (relative : isAbsolute part = false) (other : c ≠ '/') :
    c ∈ (join base part).toList ↔ c ∈ base.toList ∨ c ∈ part.toList := by
  have inside : ¬ (isAbsolute part ∨ base.isEmpty) := by simp [relative, ne]
  rw [join, if_neg inside]
  split <;> simp [other]

theorem le_utf8ByteSize_join (ne : base ≠ "") (relative : isAbsolute part = false) :
    base.utf8ByteSize + part.utf8ByteSize ≤ (join base part).utf8ByteSize := by
  have inside : ¬ (isAbsolute part ∨ base.isEmpty) := by simp [relative, ne]
  rw [join, if_neg inside]
  split
  · exact Nat.le_of_eq String.utf8ByteSize_append.symm
  · rw [String.utf8ByteSize_append, String.utf8ByteSize_append]
    omega

theorem join_of_isAbsolute (h : isAbsolute part = true) : join base part = part := by
  rw [join, if_pos (.inl h)]

theorem join_ne_empty (ne : base ≠ "") (relative : isAbsolute part = false) : join base part ≠ "" := by
  intro empty
  have starts := prefix_join ne relative
  rw [empty] at starts
  exact ne (String.toList_inj.mp (List.prefix_nil.mp starts))

end Path

theorem IsName.steps_join {name : String} (h : IsName name) (base : String) :
    steps (Path.join base name) = FileSystem.named base.toList ++ [.into name] := by
  rw [steps_eq, Path.named_join h.relative, Path.marked_join h.relative, h.named, h.marked,
    if_neg (List.concat_ne_nil _ _)]

/-! ### The directory that a path lies in -/

namespace Path

theorem ofParts_cons {rest : List (List Char)} (ne : rest ≠ []) (part : List Char) :
    ofParts (part :: rest) = part ++ '/' :: ofParts rest := ofParts.eq_3 part rest ne

theorem ofParts_append {parts more : List (List Char)} (ne : parts ≠ []) (ne' : more ≠ []) :
    ofParts (parts ++ more) = ofParts parts ++ '/' :: ofParts more := by
  induction parts with
  | nil => exact absurd rfl ne
  | cons part rest ih =>
    rw [List.cons_append]
    cases rest with
    | nil => exact ofParts_cons ne' part
    | cons second rest =>
      rw [ofParts_cons (by simp), ih (List.cons_ne_nil _ _), ofParts_cons (List.cons_ne_nil _ _)]
      simp

theorem ofParts_mono {parts parts' : List (List Char)} (h : parts <+: parts') :
    ofParts parts <+: ofParts parts' := by
  obtain ⟨more, rfl⟩ := h
  by_cases none : parts = []
  · rw [none]
    exact List.nil_prefix
  · by_cases whole : more = []
    · exact ⟨[], by simp [whole]⟩
    · rw [ofParts_append none whole]
      exact List.prefix_append _ _

theorem mem_ofParts {parts : List (List Char)} {c : Char} (h : c ∈ ofParts parts) :
    c = '/' ∨ ∃ part ∈ parts, c ∈ part := by
  induction parts with
  | nil => cases h
  | cons part rest ih =>
    cases rest with
    | nil => exact .inr ⟨part, List.mem_cons_self, h⟩
    | cons second rest =>
      rw [ofParts_cons (List.cons_ne_nil _ _), List.mem_append, List.mem_cons] at h
      rcases h with inside | slash | later
      · exact .inr ⟨part, List.mem_cons_self, inside⟩
      · exact .inl slash
      · obtain slash | ⟨p, hp, mem⟩ := ih later
        · exact .inl slash
        · exact .inr ⟨p, List.mem_cons_of_mem _ hp, mem⟩

theorem splitOn_ofParts {parts : List (List Char)} (ne : parts ≠ []) (h : ∀ part ∈ parts, '/' ∉ part) :
    Text.splitOn '/' (ofParts parts) = parts := by
  induction parts with
  | nil => exact absurd rfl ne
  | cons part rest ih =>
    have plain := Text.splitOn_of_not_mem (h part List.mem_cons_self)
    cases rest with
    | nil => exact plain
    | cons second rest =>
      have later := ih (List.cons_ne_nil _ _) fun part hp => h part (List.mem_cons_of_mem _ hp)
      rw [ofParts_cons (List.cons_ne_nil _ _), Text.splitOn_append, plain, later, List.singleton_append]

theorem ofParts_splitOn (cs : List Char) : ofParts (Text.splitOn '/' cs) = cs := by
  have texts := Text.splitOn_flatMap '/' cs
  have ended {parts : List (List Char)} (ne : parts ≠ []) :
      parts.flatMap (· ++ ['/']) = ofParts parts ++ ['/'] := by
    induction parts with
    | nil => exact absurd rfl ne
    | cons part rest ih =>
      cases rest with
      | nil => simp [ofParts]
      | cons second rest =>
        rw [List.flatMap_cons, ih (List.cons_ne_nil _ _), ofParts_cons (List.cons_ne_nil _ _)]
        simp
  rw [ended (Text.splitOn_ne_nil _ _)] at texts
  exact List.append_cancel_right texts

theorem named_ofParts {parts : List (List Char)} (h : ∀ part ∈ parts, '/' ∉ part) :
    named (ofParts parts) = parts.filterMap stepOf? := by
  cases parts with
  | nil => rfl
  | cons part rest => rw [named, splitOn_ofParts (List.cons_ne_nil _ _) h]

theorem moves_append (xs ys : List Step) : moves (xs ++ ys) = moves xs ++ moves ys := List.filter_append ..

theorem moves_of_void {part : List Char} (h : isVoid part = true) : moves ([part].filterMap stepOf?) = [] := by
  simp only [isVoid, Bool.or_eq_true, beq_iff_eq] at h
  rcases h with rfl | rfl <;> rfl

theorem moves_dropEndWhile (parts : List (List Char)) :
    moves ((Text.dropEndWhile isVoid parts).filterMap stepOf?) = moves (parts.filterMap stepOf?) := by
  induction parts using List.reverseRecOn with
  | nil => rfl
  | append_singleton parts part ih =>
    by_cases void : isVoid part = true
    · rw [Text.dropEndWhile_append_of_pos parts (List.forall_mem_singleton.mpr void), ih, List.filterMap_append,
        moves_append, moves_of_void void, List.append_nil]
    · rw [Text.dropEndWhile_append (Bool.eq_false_iff.mpr void)]
      rfl

theorem dropVoidEnd_starts (relative : Bool) (parts : List (List Char)) :
    dropVoidEnd relative parts <+: parts := by
  cases parts with
  | nil => exact List.nil_prefix
  | cons first rest =>
    rw [dropVoidEnd]
    split
    · exact List.nil_prefix
    · exact (List.prefix_cons_inj first).mpr (Text.dropEndWhile_starts _ rest)

theorem moves_dropVoidEnd (relative : Bool) (parts : List (List Char)) :
    moves ((dropVoidEnd relative parts).filterMap stepOf?) = moves (parts.filterMap stepOf?) := by
  cases parts with
  | nil => rfl
  | cons first rest =>
    have split (l : List (List Char)) : moves ((first :: l).filterMap stepOf?) =
        moves ([first].filterMap stepOf?) ++ moves (l.filterMap stepOf?) := by
      rw [← moves_append, ← List.filterMap_append, List.singleton_append]
    rw [dropVoidEnd]
    split
    · next all =>
      obtain ⟨none, void⟩ := Bool.and_eq_true_iff.mp all
      have void : isVoid first = true := by
        rcases Bool.or_eq_true_iff.mp void with empty | h
        · rw [isVoid, empty, Bool.true_or]
        · exact (Bool.and_eq_true_iff.mp h).2
      rw [split, moves_of_void void, ← moves_dropEndWhile rest, List.isEmpty_iff.mp none]
      rfl
    · rw [split, split rest, moves_dropEndWhile]

theorem dropLastPart?_concat (relative : Bool) (before : List (List Char)) {last : List Char}
    (h : isVoid last = false) :
    dropLastPart? relative (before ++ [last]) = some (dropVoidEnd relative before) := by
  have kept : dropVoidEnd relative (before ++ [last]) = before ++ [last] := by
    cases before with
    | nil =>
      have full : last ≠ [] := by
        rintro rfl
        cases h
      simp [dropVoidEnd, Text.dropEndWhile, full, h]
    | cons first rest => simp [dropVoidEnd, Text.dropEndWhile, h]
  rw [dropLastPart?, kept, List.reverse_append, List.reverse_singleton, List.singleton_append]
  simp

/-- The directory of a path whose last part is a name. Its text is the beginning of the path. -/
theorem parent?_of_parts {path : String} {before : List (List Char)} {last : List Char}
    (h : Text.splitOn '/' path.toList = before ++ [last]) (full : isVoid last = false) :
    ∃ directory, parent? path = some directory ∧ directory.toList <+: path.toList ∧
      moves (named directory.toList) = moves (before.filterMap stepOf?) ∧
      (directory = "" → isAbsolute path = false) := by
  have plain {parts : List (List Char)} (starts : parts <+: Text.splitOn '/' path.toList) :
      ∀ part ∈ parts, '/' ∉ part := fun part hp => Text.not_mem_of_mem_splitOn (starts.subset hp)
  have inside : before <+: Text.splitOn '/' path.toList := by
    rw [h]
    exact List.prefix_append _ _
  unfold parent?
  split
  · next body eq =>
    rw [eq, Text.splitOn, if_pos rfl] at h
    -- A slash at the front makes an empty first part.
    cases before with
    | nil => exact absurd (List.cons.inj h).2 (Text.splitOn_ne_nil _ _)
    | cons first before =>
      rw [List.cons_append] at h
      obtain ⟨rfl, parts⟩ := List.cons.inj h
      have kept := dropVoidEnd_starts false before
      rw [parts, dropLastPart?_concat false before full]
      refine ⟨_, rfl, ?_, ?_, fun empty => ?_⟩
      · rw [eq, String.toList_ofList, ← ofParts_splitOn body, parts]
        exact (List.prefix_cons_inj '/').mpr (ofParts_mono (kept.trans (List.prefix_append _ _)))
      · rw [String.toList_ofList, named_cons, named_ofParts, moves_dropVoidEnd]
        · rfl
        · exact fun part hp => plain inside part (List.mem_cons_of_mem _ (kept.subset hp))
      · have nil := congrArg String.toList empty
        rw [String.toList_ofList] at nil
        cases nil
  · next slash =>
    have kept := dropVoidEnd_starts true before
    rw [h, dropLastPart?_concat true before full]
    refine ⟨_, rfl, ?_, ?_, fun _ => ?_⟩
    · rw [String.toList_ofList]
      conv => rhs; rw [← ofParts_splitOn path.toList]
      exact ofParts_mono (kept.trans inside)
    · rw [String.toList_ofList, named_ofParts (plain (kept.trans inside)), moves_dropVoidEnd]
    · refine decide_eq_false fun first => ?_
      obtain ⟨body, eq⟩ := List.head?_eq_some_iff.mp first
      exact slash body eq

end Path

end Provisioning.Host
