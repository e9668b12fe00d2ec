import Mathlib.Data.List.Nodup
import Mathlib.Data.List.Perm.Subperm
import Mathlib.Order.Bounds.Defs
import Mathlib.Tactic.Push
import Provisioning.Session.Vagrantfile
import Provisioning.Proofs.Decimal.Digits
import Provisioning.Proofs.Text.Lines

/-! The line that ends a script. The candidates are different from each other, and a script has fewer lines
than there are candidates to look at; so the search ends at the first candidate that no line equals, and its
fuel is never what ends it. -/

namespace Provisioning.Session.Vagrantfile

/-! ### Candidates -/

theorem toList_delimiter_succ (n : Nat) :
    (delimiter (n + 1)).toList = "VMPROV_SCRIPT_".toList ++ (Decimal.digitText (n + 1)).toList :=
  String.toList_append ..

theorem delimiter_injective {m n : Nat} (h : delimiter m = delimiter n) : m = n := by
  have zero (n : Nat) : delimiter 0 ≠ delimiter (n + 1) := by
    intro h
    have lengths := congrArg (fun s : String => s.toList.length) h
    simp only [toList_delimiter_succ, List.length_append] at lengths
    have word : (delimiter 0).toList.length < "VMPROV_SCRIPT_".toList.length := by decide
    omega
  cases m with
  | zero =>
    cases n with
    | zero => rfl
    | succ n => exact absurd h (zero n)
  | succ m =>
    cases n with
    | zero => exact absurd h.symm (zero m)
    | succ n =>
      have texts := congrArg String.toList h
      rw [toList_delimiter_succ, toList_delimiter_succ] at texts
      exact Decimal.digitText_injective (String.toList_inj.mp (List.append_cancel_left texts))

/-- A candidate is made of letters, underscores and digits. -/
theorem mem_delimiter {n : Nat} {c : Char} (h : c ∈ (delimiter n).toList) :
    c ∈ "VMPROV_SCRIPT_".toList ∨ c.isDigit = true := by
  cases n with
  | zero =>
    have letters : "VMPROV_SCRIPT_".toList = (delimiter 0).toList ++ ['_'] := rfl
    exact .inl (letters ▸ List.mem_append_left _ h)
  | succ n =>
    rw [toList_delimiter_succ] at h
    exact (List.mem_append.mp h).imp_right Decimal.isDigit_of_mem_digitText

theorem isBlank_of_isDigit {c : Char} (h : c.isDigit = true) : Text.isBlank c = false := by
  simp only [Char.isDigit, Bool.and_eq_true, decide_eq_true_eq] at h
  have low : 48 ≤ c.toNat := h.1
  have high : c.toNat ≤ 57 := h.2
  refine Bool.eq_false_iff.mpr fun blank => ?_
  simp only [Text.isBlank, Text.blankRanges, List.any_cons, List.any_nil, Bool.or_eq_true, Bool.and_eq_true,
    decide_eq_true_eq, Bool.or_false] at blank
  omega

theorem isBlank_of_mem_delimiter {n : Nat} {c : Char} (h : c ∈ (delimiter n).toList) :
    Text.isBlank c = false := by
  rcases mem_delimiter h with letter | digit
  · have letters : "VMPROV_SCRIPT_".toList.all (fun c => !Text.isBlank c) = true := by decide
    simpa using List.all_eq_true.mp letters c letter
  · exact isBlank_of_isDigit digit

theorem delimiter_ne_nil (n : Nat) : (delimiter n).toList ≠ [] := by
  cases n with
  | zero => decide
  | succ n => simp [toList_delimiter_succ]

theorem apostrophe_not_mem_delimiter (n : Nat) : '\x27' ∉ (delimiter n).toList := by
  intro h
  rcases mem_delimiter h with letter | digit
  · revert letter
    decide
  · simp at digit

/-! ### The search -/

/-- A search that nothing bounds: from candidate `n` on, each of `steps` steps passes over a candidate that is taken,
and candidate `k` after them is free. -/
inductive Search (taken : List String) : Nat → Nat → Nat → Prop
  | found {n : Nat} (free : delimiter n ∉ taken) : Search taken n 0 n
  | passed {n steps k : Nat} (used : delimiter n ∈ taken) (later : Search taken (n + 1) steps k) :
      Search taken n (steps + 1) k

namespace Search

variable {taken : List String} {n steps k : Nat}

theorem steps_eq (search : Search taken n steps k) : n + steps = k := by
  induction search with
  | found => rfl
  | passed _ _ ih => omega

theorem free (search : Search taken n steps k) : delimiter k ∉ taken := by
  induction search with
  | found free => exact free
  | passed _ _ ih => exact ih

theorem used (search : Search taken n steps k) {m : Nat} (low : n ≤ m) (high : m < k) : delimiter m ∈ taken := by
  induction search with
  | found => omega
  | passed used _ ih =>
    rcases Nat.eq_or_lt_of_le low with rfl | later
    · exact used
    · exact ih later high

/-- A search with fuel goes the same way as far as the fuel lasts, and it stops where the other one ends. -/
theorem freeDelimiter_eq (search : Search taken n steps k) (fuel : Nat) :
    freeDelimiter taken fuel n = delimiter (min (n + fuel) k) := by
  induction search generalizing fuel with
  | @found n free =>
    have stop : min (n + fuel) n = n := by omega
    rw [stop]
    cases fuel with
    | zero => rfl
    | succ fuel => rw [freeDelimiter, if_neg free]
  | @passed n steps k used later ih =>
    have ahead := later.steps_eq
    cases fuel with
    | zero =>
      have here : min (n + 0) k = n := by omega
      rw [here, freeDelimiter]
    | succ fuel =>
      rw [freeDelimiter, if_pos used, ih fuel, Nat.add_right_comm, Nat.add_assoc]

/-- A free candidate ahead ends the search. -/
theorem exists_of_free {m : Nat} (free : delimiter m ∉ taken) (ahead : n ≤ m) : ∃ steps k, Search taken n steps k := by
  -- The search comes nearer to candidate `m` with each step.
  induction distance : m - n generalizing n with
  | zero =>
    obtain rfl : n = m := by omega
    exact ⟨0, n, found free⟩
  | succ distance ih =>
    by_cases used : delimiter n ∈ taken
    · obtain ⟨steps, k, later⟩ := ih (n := n + 1) (by omega) (by omega)
      exact ⟨steps + 1, k, passed used later⟩
    · exact ⟨0, n, found used⟩

end Search

/-- One candidate more than there are lines, and one of them is free. -/
theorem exists_free (taken : List String) : ∃ k ≤ taken.length, delimiter k ∉ taken := by
  by_contra none
  push Not at none
  -- More candidates than there are lines, all different, cannot all be lines.
  have different : ((List.range (taken.length + 1)).map delimiter).Nodup :=
    List.Nodup.map (fun _ _ => delimiter_injective) List.nodup_range
  have inside : (List.range (taken.length + 1)).map delimiter ⊆ taken := by
    intro d hd
    obtain ⟨k, hk, rfl⟩ := List.mem_map.mp hd
    exact none k (by have := List.mem_range.mp hk; omega)
  have lengths := (List.Nodup.subperm different inside).length_le
  rw [List.length_map, List.length_range] at lengths
  omega

/-- A search from the first candidate on ends, with a step for each line at most. -/
theorem exists_search (taken : List String) : ∃ k ≤ taken.length, Search taken 0 k k := by
  obtain ⟨m, bound, free⟩ := exists_free taken
  obtain ⟨steps, k, search⟩ := Search.exists_of_free free (Nat.zero_le m)
  obtain rfl : steps = k := by
    have eq := search.steps_eq
    omega
  have early : steps ≤ m := Nat.not_lt.mp fun late => free (search.used (Nat.zero_le m) late)
  exact ⟨steps, by omega, search⟩

theorem delimiterFor_of_search {text : String} {k : Nat} (search : Search (trimmedLines text) 0 k k)
    (bound : k ≤ (trimmedLines text).length) : delimiterFor text = delimiter k := by
  rw [delimiterFor, search.freeDelimiter_eq, Nat.zero_add, Nat.min_eq_right bound]

/-- The line that ends a script is the first candidate that no line of the script equals. -/
theorem delimiterFor_eq (text : String) : ∃ k, delimiterFor text = delimiter k ∧
    delimiter k ∉ trimmedLines text ∧ ∀ m < k, delimiter m ∈ trimmedLines text := by
  obtain ⟨k, bound, search⟩ := exists_search (trimmedLines text)
  exact ⟨k, delimiterFor_of_search search bound, search.free, fun m => search.used (Nat.zero_le m)⟩

theorem not_mem_trimmedLines_iff {text word : String} :
    word ∉ trimmedLines text ↔ ∀ line ∈ Text.lines text.toList, String.ofList (Text.trim line) ≠ word := by
  simp [trimmedLines]

/-- The main statement. The search ends without a bound, after as many steps as the script has lines at most. With fuel
it goes through the same candidates and stops at the same one, which is the least that no line equals without the blanks
around it. -/
theorem delimiter_search_ends (text : String) :
    ∃ k ≤ (Text.lines text.toList).length,
      Search (trimmedLines text) 0 k k ∧
      (∀ fuel, freeDelimiter (trimmedLines text) fuel 0 = delimiter (min fuel k)) ∧
      delimiterFor text = delimiter k ∧
      IsLeast {n | ∀ line ∈ Text.lines text.toList, String.ofList (Text.trim line) ≠ delimiter n} k := by
  obtain ⟨k, bound, search⟩ := exists_search (trimmedLines text)
  have lines : (trimmedLines text).length = (Text.lines text.toList).length := List.length_map ..
  refine ⟨k, lines ▸ bound, search, fun fuel => ?_, delimiterFor_of_search search bound, ?_, ?_⟩
  · rw [search.freeDelimiter_eq, Nat.zero_add]
  · exact not_mem_trimmedLines_iff.mp search.free
  · intro n free
    refine Nat.not_lt.mp fun early => ?_
    exact not_mem_trimmedLines_iff.mpr free (search.used (Nat.zero_le n) early)

end Provisioning.Session.Vagrantfile
