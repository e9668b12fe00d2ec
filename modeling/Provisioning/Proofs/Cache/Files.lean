import Provisioning.Cache.Root
import Provisioning.Proofs.Cache.Segment

/-! The files of the cache. Below the root of its side, a file has the name of its URL and its own name, so that host and
guest mean the same file, and no other one. -/

namespace Provisioning.Cache

open Host Host.FileSystem

variable {r : Root} {url url' file file' : String}

/-! ### Names of files -/

/-- A text that is one part of a path. -/
structure IsComponent (file : String) : Prop where
  ne_empty : file ≠ ""
  no_slash : '/' ∉ file.toList

theorem IsComponent.of_isName (h : IsName file) : IsComponent file := ⟨h.ne_empty, h.no_slash⟩

namespace IsComponent

theorem relative (h : IsComponent file) : Path.isAbsolute file = false :=
  decide_eq_false fun first => h.no_slash (List.mem_of_head? first)

theorem named_ne_nil (h : IsComponent file) : named file.toList ≠ [] := by
  obtain ⟨step, eq⟩ := exists_step (mt String.toList_eq_nil_iff.mp h.ne_empty)
  rw [named, Text.splitOn_of_not_mem h.no_slash, List.filterMap_cons, eq]
  exact List.cons_ne_nil _ _

end IsComponent

namespace Segment

theorem no_slash_encode (url : String) : '/' ∉ (encode url).toList := by
  intro slash
  rcases mem_encode slash with letter | score
  · cases letter
  · cases score

theorem relative_encode (url : String) : Path.isAbsolute (encode url) = false :=
  decide_eq_false fun first => no_slash_encode url (List.mem_of_head? first)

end Segment

open Segment

/-! ### Texts -/

/-- What stands behind the root in the host's path of a file. The empty URL has no directory of its own there. -/
def below (url file : String) : List Char := Path.lead (encode url).toList ++ file.toList

theorem toList_hostFile (part : IsComponent file) :
    ((r.slot url).hostFile file).toList = Path.lead r.host.toList ++ below url file := by
  rw [Slot.hostFile, Root.slot, Path.toList_join part.relative, Path.toList_join (relative_encode url),
    Path.lead_lead_append (no_slash_encode url), List.append_assoc, below]

theorem toList_guestFile (r : Root) (url file : String) :
    ((r.slot url).guestFile file).toList = r.guest.toList ++ '/' :: ((encode url).toList ++ '/' :: file.toList) := by
  simp [Slot.guestFile, Root.slot]

/-- The parts before and after a slash tell each other apart. -/
theorem parts_inj {a a' b b' : List Char} (h : '/' ∉ a) (h' : '/' ∉ a') (eq : a ++ '/' :: b = a' ++ '/' :: b') :
    a = a' ∧ b = b' := by
  have split := Text.splitOnce?_append h b
  rw [eq, Text.splitOnce?_append h'] at split
  obtain ⟨rfl, rfl⟩ := Prod.mk.inj (Option.some.inj split)
  exact ⟨rfl, rfl⟩

theorem lead_encode (h : url ≠ "") : Path.lead (encode url).toList = (encode url).toList ++ ['/'] := by
  have full : (encode url).toList ≠ [] := mt String.toList_eq_nil_iff.mp (isName_encode h).ne_empty
  have last : (encode url).toList.getLast? ≠ some '/' := fun slash => no_slash_encode url (List.mem_of_getLast? slash)
  rw [Path.lead, if_neg (not_or.mpr ⟨full, last⟩)]

theorem below_of_ne (h : url ≠ "") (file : String) : below url file = (encode url).toList ++ '/' :: file.toList := by
  rw [below, lead_encode h, List.append_assoc, List.singleton_append]

theorem encode_empty : encode "" = "" := by decide

theorem below_empty (file : String) : below "" file = file.toList := by
  rw [below, encode_empty]
  rfl

theorem key_inj (eq : (encode url).toList ++ '/' :: file.toList = (encode url').toList ++ '/' :: file'.toList) :
    (url, file) = (url', file') := by
  obtain ⟨segment, name⟩ := parts_inj (no_slash_encode url) (no_slash_encode url') eq
  rw [encode_injective (String.toList_inj.mp segment), String.toList_inj.mp name]

theorem below_inj (part : IsComponent file) (part' : IsComponent file') (eq : below url file = below url' file') :
    (url, file) = (url', file') := by
  have slashed (url file : String) : '/' ∈ (encode url).toList ++ '/' :: file.toList := by simp
  by_cases empty : url = "" <;> by_cases empty' : url' = ""
  · subst empty empty'
    rw [below_empty, below_empty] at eq
    rw [String.toList_inj.mp eq]
  · subst empty
    rw [below_empty, below_of_ne empty'] at eq
    exact absurd (eq ▸ slashed url' file') part.no_slash
  · subst empty'
    rw [below_empty, below_of_ne empty] at eq
    exact absurd (eq ▸ slashed url file) part'.no_slash
  · rw [below_of_ne empty, below_of_ne empty'] at eq
    exact key_inj eq

/-! ### Steps -/

/-- The steps from a root to a file. -/
def location (url file : String) : List Step := named (encode url).toList ++ marked file.toList

theorem steps_hostFile (part : IsComponent file) :
    steps ((r.slot url).hostFile file) = named r.host.toList ++ location url file := by
  have led (f : List Char → List Step)
      (h : ∀ cs more, f (Path.lead cs ++ more) = named cs ++ f more) :
      f ((r.slot url).hostFile file).toList = named r.host.toList ++ (named (encode url).toList ++ f file.toList) := by
    rw [toList_hostFile part, h, below, h]
  rw [steps_eq, led named Path.named_lead_append, led marked Path.marked_lead_append, if_neg, location]
  simp [part.named_ne_nil]

theorem steps_guestFile (part : IsComponent file) :
    steps ((r.slot url).guestFile file) = named r.guest.toList ++ location url file := by
  rw [steps_eq, toList_guestFile, named_append, named_append, marked_append, marked_append, if_neg, location]
  simp [part.named_ne_nil]

theorem location_of_ne (h : url ≠ "") (file : String) :
    location url file = .into (encode url) :: marked file.toList := by
  rw [location, (isName_encode h).named, List.singleton_append]

theorem named_encode_inj (eq : named (encode url).toList = named (encode url').toList) : url = url' := by
  by_cases empty : url = "" <;> by_cases empty' : url' = ""
  · rw [empty, empty']
  · rw [empty, encode_empty, (isName_encode empty').named] at eq
    cases eq
  · rw [empty', encode_empty, (isName_encode empty).named] at eq
    cases eq
  · rw [(isName_encode empty).named, (isName_encode empty').named, List.singleton_inj, Step.into.injEq] at eq
    exact encode_injective eq

theorem location_inj (name : IsName file) (name' : IsName file') (eq : location url file = location url' file') :
    (url, file) = (url', file') := by
  rw [location, location, name.marked, name'.marked] at eq
  obtain ⟨directory, last⟩ := List.append_inj' eq rfl
  rw [List.singleton_inj, Step.into.injEq] at last
  rw [named_encode_inj directory, last]

/-! ### Artifacts -/

/-- Two artifacts have different paths in the guest and on the host, and the paths lead apart if the names of the files are
names. Under both roots an artifact lies in the directory that its URL is encoded to, under its own name. -/
theorem artifacts_apart (r : Root) :
    (∀ url file url' file', IsComponent file → IsComponent file' → (url, file) ≠ (url', file') →
      (r.slot url).guestFile file ≠ (r.slot url').guestFile file' ∧
      (r.slot url).hostFile file ≠ (r.slot url').hostFile file') ∧
    (∀ url file, url ≠ "" → IsComponent file →
      IsName (encode url) ∧
      (r.slot url).hostFile file = Path.join r.host (encode url ++ "/" ++ file) ∧
      (r.slot url).guestFile file = r.guest ++ "/" ++ (encode url ++ "/" ++ file) ∧
      steps ((r.slot url).hostFile file) = named r.host.toList ++ .into (encode url) :: marked file.toList ∧
      steps ((r.slot url).guestFile file) = named r.guest.toList ++ .into (encode url) :: marked file.toList) ∧
    ∀ url file url' file', IsName file → IsName file' → (url, file) ≠ (url', file') →
      steps ((r.slot url).guestFile file) ≠ steps ((r.slot url').guestFile file') ∧
      steps ((r.slot url).hostFile file) ≠ steps ((r.slot url').hostFile file') := by
  refine ⟨fun url file url' file' part part' other => ⟨fun eq => ?_, fun eq => ?_⟩, fun url file full part => ?_,
    fun url file url' file' name name' other => ⟨fun eq => ?_, fun eq => ?_⟩⟩
  · have texts := congrArg String.toList eq
    rw [toList_guestFile, toList_guestFile] at texts
    exact other (key_inj (List.cons.inj (List.append_cancel_left texts)).2)
  · have texts := congrArg String.toList eq
    rw [toList_hostFile part, toList_hostFile part'] at texts
    exact other (below_inj part part' (List.append_cancel_left texts))
  · have relative : Path.isAbsolute (encode url ++ "/" ++ file) = false := by
      rw [Path.isAbsolute_of_prefix (isName_encode full).ne_empty (by simp), relative_encode]
    refine ⟨isName_encode full, String.toList_inj.mp ?_, ?_, ?_, ?_⟩
    · rw [toList_hostFile part, Path.toList_join relative, below_of_ne full]
      simp
    · simp only [Slot.guestFile, Root.slot, String.append_assoc]
    · rw [steps_hostFile part, location_of_ne full]
    · rw [steps_guestFile part, location_of_ne full]
  · rw [steps_guestFile (.of_isName name), steps_guestFile (.of_isName name')] at eq
    exact other (location_inj name name' (List.append_cancel_left eq))
  · rw [steps_hostFile (.of_isName name), steps_hostFile (.of_isName name')] at eq
    exact other (location_inj name name' (List.append_cancel_left eq))

theorem artifacts_apart_empty :
    let r : Root := ⟨"cache/", "/c"⟩
    IsComponent "f" ∧ (r.slot "").guestFile "f" ≠ (r.slot "a").guestFile "f" ∧
      (r.slot "").hostFile "f" ≠ (r.slot "a").hostFile "f" :=
  have part : IsComponent "f" := ⟨by decide, by decide⟩
  ⟨part, (artifacts_apart ⟨"cache/", "/c"⟩).1 "" "f" "a" "f" part part (by decide)⟩

end Provisioning.Cache
