import Provisioning.Proofs.Registry.Names
import Provisioning.Proofs.Text.Lines

/-! Flattened names. A name that writes a subject in other letters, an underscore and an action in another spelling
stands for the two, if nothing else that is registered could be meant. -/

namespace Provisioning

namespace Text

theorem toLower_eq_underscore {c : Char} (h : c.toLower = '_') : c = '_' := by
  unfold Char.toLower at h
  split at h
  · next upper =>
    -- A capital comes out as a letter.
    have least : 'A'.val.toNat ≤ c.val.toNat := upper.1
    have most : c.val.toNat ≤ 'Z'.val.toNat := upper.2
    have code := congrArg (fun c : Char => c.val.toNat) h
    simp only [UInt32.toNat_add] at code
    simp at least most code
    omega
  · exact h

theorem mem_of_sameLetters {a b : List Char} (same : sameLetters a b = true) (h : '_' ∈ b) : '_' ∈ a := by
  have lowered : '_' ∈ lower b := List.mem_map.mpr ⟨'_', h, rfl⟩
  rw [← eq_of_beq same] at lowered
  obtain ⟨c, hc, eq⟩ := List.mem_map.mp lowered
  exact toLower_eq_underscore eq ▸ hc

end Text

namespace Registry

variable {ρ : Type}

/-- The name made of `verb` and `rest` writes an action of the registry that nothing else in it is written like. -/
structure Flattens (r : Registry ρ) (subject action : String) (verb rest : List Char) : Prop where
  capital : (subject.toList.headD ' ').isUpper = true
  whole : '_' ∉ subject.toList
  bound : ∃ b ∈ r.bindings, b.Under subject action
  sole : ∀ b ∈ r.bindings, Text.sameLetters b.subject.toList subject.toList = true → b.subject = subject
  soleAction : ∀ b ∈ r.bindings, b.subject = subject →
    spelling b.action.toList = spelling action.toList → b.action = action
  written : Text.sameLetters subject.toList verb = true
  small : (verb.headD ' ').isUpper = false
  nonempty : rest ≠ []
  spelled : spelling rest = spelling action.toList

theorem find?_sole {α : Type} {l : List α} {p : α → Bool} {a : α} (mem : a ∈ l) (holds : p a = true)
    (sole : ∀ b ∈ l, p b = true → b = a) : l.find? p = some a := by
  cases found : l.find? p with
  | none => exact absurd holds (List.find?_eq_none.mp found a mem)
  | some b => rw [sole b (List.mem_of_find?_eq_some found) (List.find?_some found)]

theorem Flattens.unflatten {r : Registry ρ} {subject action : String} {verb rest : List Char}
    (h : r.Flattens subject action verb rest) :
    r.unflatten? (String.ofList (verb ++ '_' :: rest)) = some (subject, action) := by
  obtain ⟨b, hb, under⟩ := h.bound
  -- `verb` has no underscore since the subject has none.
  have split : Text.splitOnce? '_' (verb ++ '_' :: rest) = some (verb, rest) :=
    Text.splitOnce?_append (mt (Text.mem_of_sameLetters h.written) h.whole) rest
  have named : verb ≠ [] := by
    rintro rfl
    have empty : subject.toList = [] := List.map_eq_nil_iff.mp (eq_of_beq h.written)
    have capital := h.capital
    rw [empty] at capital
    cases capital
  -- Both searches take the first that fits, and only one does.
  have foundSubject : r.subjects.find? (fun s => Text.sameLetters s.toList verb) = some subject := by
    refine find?_sole (mem_subjects.mpr ⟨b, hb, under.1⟩) h.written fun s hs same => ?_
    obtain ⟨c, hc, rfl⟩ := mem_subjects.mp hs
    exact h.sole c hc (beq_iff_eq.mpr ((eq_of_beq same).trans (eq_of_beq h.written).symm))
  have foundAction : (r.actionNames subject).find? (fun a => spelling a.toList = spelling rest) = some action := by
    refine find?_sole (mem_actionNames.mpr ⟨b, hb, under⟩) (decide_eq_true h.spelled.symm) fun a ha same => ?_
    obtain ⟨c, hc, subject, rfl⟩ := mem_actionNames.mp ha
    exact h.soleAction c hc subject ((of_decide_eq_true same).trans h.spelled)
  simp only [unflatten?, String.toList_ofList, split, if_neg (not_or.mpr ⟨named, h.nonempty⟩), foundSubject,
    foundAction]

end Registry

end Provisioning
