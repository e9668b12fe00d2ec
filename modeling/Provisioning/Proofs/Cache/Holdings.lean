import Provisioning.Proofs.Build.Calls
import Provisioning.Proofs.Cache.Segment
import Provisioning.Proofs.Host.Lookup
import Provisioning.Proofs.Text.Order

/-! The listing of the cache. It shows the directories of URLs, each with the plain files in it, whatever else lies there
and in whatever order the host tells of it, and what it shows is found when it is asked for. -/

namespace Provisioning.Cache

open Host

/-! ### Reading entries one after the other -/

section Reading

variable {α β ε : Type} {f : α → Except ε (Option β)} {l : List α}

theorem filterMapM_of_ok {g : α → Option β} (all : ∀ a ∈ l, f a = .ok (g a)) :
    l.filterMapM f = .ok (l.filterMap g) := by
  induction l with
  | nil => rfl
  | cons a l ih =>
    have later := ih fun b hb => all b (List.mem_cons_of_mem _ hb)
    rw [List.filterMapM_cons, all a List.mem_cons_self, List.filterMap_cons]
    cases g a with
    | none => exact later
    | some b =>
      rw [later]
      rfl

theorem ok_of_filterMapM {found : List β} (h : l.filterMapM f = .ok found) {a : α} (ha : a ∈ l) :
    ∃ o, f a = .ok o := by
  induction l generalizing found with
  | nil => cases ha
  | cons b l ih =>
    rw [List.filterMapM_cons] at h
    cases read : f b with
    | error e =>
      rw [read] at h
      cases h
    | ok o =>
      have rest : ∃ found, l.filterMapM f = .ok found := by
        cases later : l.filterMapM f with
        | ok found => exact ⟨found, rfl⟩
        | error e =>
          rw [read, later] at h
          cases o <;> cases h
      obtain ⟨found, later⟩ := rest
      rcases List.mem_cons.mp ha with rfl | ha
      · exact ⟨o, read⟩
      · exact ih later ha

theorem filterMapM_eq_ok {found : List β} (h : l.filterMapM f = .ok found) :
    found = l.filterMap fun a => (f a).toOption.join := by
  have all : ∀ a ∈ l, f a = .ok (f a).toOption.join := by
    intro a ha
    obtain ⟨o, ok⟩ := ok_of_filterMapM h ha
    rw [ok]
    rfl
  rw [filterMapM_of_ok all] at h
  exact (Except.ok.inj h).symm

end Reading

namespace Root

variable {r : Root} {m : Machine} {dir loc : Location} {name : String} {e : Entry} {h : Holding} {hs : List Holding}

/-! ### Plain files -/

theorem mem_plainFiles {entries : List (String × Entry)} {f : String} :
    f ∈ plainFiles entries ↔ ∃ content, (f, .file content) ∈ entries := by
  rw [plainFiles, List.mem_mergeSort, List.mem_filterMap]
  constructor
  · rintro ⟨⟨name, e⟩, mem, eq⟩
    cases e with
    | file content =>
      obtain rfl := Option.some.inj eq
      exact ⟨content, mem⟩
    | link => cases eq
    | directory => cases eq
  · rintro ⟨content, mem⟩
    exact ⟨_, mem, rfl⟩

def fileName? : String × Entry → Option String
  | (name, .file _) => some name
  | _ => none

theorem plainFiles_eq (entries : List (String × Entry)) :
    plainFiles entries = (entries.filterMap fileName?).mergeSort (id · ≤ id ·) := by
  rw [plainFiles]
  congr 1
  refine congrArg (List.filterMap · entries) (funext fun ⟨name, e⟩ => ?_)
  cases e <;> rfl

theorem nodup_fileNames {entries : List (String × Entry)} (distinct : (entries.map Prod.fst).Nodup) :
    ((entries.filterMap fileName?).map id).Nodup := by
  rw [List.map_id, List.Nodup, List.pairwise_filterMap]
  refine (List.pairwise_map.mp distinct).imp ?_
  rintro ⟨name, e⟩ ⟨name', e'⟩ ne f here f' there rfl
  cases e <;> cases here
  cases e' <;> cases there
  exact ne rfl

theorem ascending_plainFiles {entries : List (String × Entry)} (distinct : (entries.map Prod.fst).Nodup) :
    Ascending (plainFiles entries) := by
  have ascending := ascending_mergeSort (nodup_fileNames distinct)
  rw [List.map_id, ← plainFiles_eq] at ascending
  exact ascending

theorem plainFiles_eq_of_perm {entries entries' : List (String × Entry)} (perm : entries.Perm entries')
    (distinct : (entries.map Prod.fst).Nodup) : plainFiles entries = plainFiles entries' := by
  rw [plainFiles_eq, plainFiles_eq]
  exact mergeSort_eq_of_perm (perm.filterMap _) (nodup_fileNames distinct)

/-! ### One entry of the cache directory -/

/-- What an entry of the cache directory adds to the listing, when its name tells this URL. -/
def holdingOf? (r : Root) (m : Machine) (name : String) : Entry → Option String → Except IoError (Option Holding)
  | .directory, some url => do
    let path := Host.Path.join r.host name
    let inside ← m.list path
    return some (Holding.mk url path (plainFiles inside))
  | _, _ => return none

def holding? (r : Root) (m : Machine) (p : String × Entry) : Except IoError (Option Holding) :=
  r.holdingOf? m p.1 p.2 (Segment.decode? p.1)

theorem holdings_of_entries {entries : List (String × Entry)} (read : m.list r.host = .ok entries) :
    r.holdings m = (entries.filterMapM (r.holding? m)).map (·.mergeSort (·.url ≤ ·.url)) := by
  rw [holdings, read]
  change (do let found ← entries.filterMapM (r.holding? m); return _) = _
  cases entries.filterMapM (r.holding? m) <;> rfl

theorem holdingOf?_directory (url : String) :
    r.holdingOf? m name .directory (some url) = (m.list (Host.Path.join r.host name)).map fun inside =>
      some ⟨url, Host.Path.join r.host name, plainFiles inside⟩ := by
  rw [holdingOf?]
  cases m.list (Host.Path.join r.host name) <;> rfl

theorem holdingOf?_eq_some {url : Option String} (found : r.holdingOf? m name e url = .ok (some h)) :
    e = .directory ∧ url = some h.url ∧ h.path = Host.Path.join r.host name ∧
      ∃ inside, m.list h.path = .ok inside ∧ h.files = plainFiles inside := by
  cases e with
  | file => cases found
  | link => cases found
  | directory =>
    cases url with
    | none => cases found
    | some url =>
      rw [holdingOf?_directory] at found
      cases read : m.list (Host.Path.join r.host name) with
      | error e =>
        rw [read] at found
        cases found
      | ok inside =>
        rw [read] at found
        obtain rfl := Option.some.inj (Except.ok.inj found)
        exact ⟨rfl, rfl, rfl, inside, read, rfl⟩

theorem holding?_eq_some (held : r.holding? m (name, e) = .ok (some h)) :
    e = .directory ∧ Segment.encode h.url = name ∧ h.path = Host.Path.join r.host name ∧
      ∃ inside, m.list h.path = .ok inside ∧ h.files = plainFiles inside := by
  obtain ⟨isDirectory, decoded, path, read⟩ := holdingOf?_eq_some held
  exact ⟨isDirectory, Segment.encode_of_decode? decoded, path, read⟩

/-! ### The listing -/

/-- A cache without a directory holds nothing, and one with a directory what its entries add. -/
theorem holdings_cases (ok : r.holdings m = .ok hs) : hs = [] ∧ m.list r.host = .error .notFound ∨
    ∃ dir, m.find r.host = .ok (dir, .directory) ∧
      (∀ p ∈ m.files.children dir, ∃ o, r.holding? m p = .ok o) ∧
      hs = ((m.files.children dir).filterMap fun p => (r.holding? m p).toOption.join).mergeSort (·.url ≤ ·.url) := by
  cases read : m.list r.host with
  | error e =>
    rw [holdings, read] at ok
    by_cases missing : e = .notFound
    · subst missing
      cases ok
      exact .inl ⟨rfl, rfl⟩
    · split at ok
      · next eq => exact absurd (Except.error.inj eq) missing
      · cases ok
      · next eq => cases eq
  | ok entries =>
    obtain ⟨dir, found, rfl⟩ := Machine.list_eq_ok_iff.mp read
    rw [holdings_of_entries read] at ok
    cases all : (m.files.children dir).filterMapM (r.holding? m) with
    | error e =>
      rw [all] at ok
      cases ok
    | ok hs' =>
      rw [all] at ok
      cases ok
      refine .inr ⟨dir, found, fun p hp => ok_of_filterMapM all hp, ?_⟩
      rw [filterMapM_eq_ok all]

theorem mem_listing (eq : hs = ((m.files.children dir).filterMap fun p => (r.holding? m p).toOption.join).mergeSort
    (·.url ≤ ·.url)) : h ∈ hs ↔ ∃ p ∈ m.files.children dir, r.holding? m p = .ok (some h) := by
  rw [eq, List.mem_mergeSort, List.mem_filterMap]
  refine exists_congr fun p => and_congr_right fun _ => ?_
  cases r.holding? m p with
  | error e => simp [Except.toOption]
  | ok o => simp [Except.toOption]

/-- A listed directory is the one of its URL, and it is a directory of the cache itself. -/
theorem listed (hm : m.WellFormed) (ok : r.holdings m = .ok hs) (mem : h ∈ hs) :
    h.url ≠ "" ∧ h.path = (r.slot h.url).host ∧ ∃ loc, m.locate false h.path = .ok ⟨loc, some .directory⟩ ∧
      m.find h.path = .ok (loc, .directory) ∧ h.files = plainFiles (m.files.children loc) := by
  rcases holdings_cases ok with ⟨rfl, -⟩ | ⟨dir, found, -, eq⟩
  · cases mem
  · obtain ⟨⟨name, e⟩, child, held⟩ := (mem_listing eq).mp mem
    obtain ⟨rfl, encoded, path, inside, read, files⟩ := holding?_eq_some held
    have lies := hm.files.mem_children.mp child
    obtain ⟨loc, led, rfl⟩ := Machine.list_eq_ok_iff.mp read
    have short := (Machine.isPath_of_locate (Machine.find_eq_ok_iff.mp led)).short
    rw [path] at short led ⊢
    have followed : m.locate true _ = _ := hm.locate_join found lies short (by simp)
    have located : m.locate false _ = _ := hm.locate_join found lies short (by simp)
    refine ⟨?_, ?_, dir ++ [name], located, Machine.find_eq_ok_iff.mpr followed, ?_⟩
    · intro empty
      refine (hm.files.isName lies).ne_empty ?_
      rw [← encoded, empty]
      decide
    · rw [slot, encoded]
    · have same := Machine.find_eq_ok_iff.mp led
      rw [followed] at same
      cases same
      exact files

/-- A URL whose directory is there is listed. -/
theorem listed_of_locate (hm : m.WellFormed) (host : r.host ≠ "") (ok : r.holdings m = .ok hs) {url : String}
    (full : url ≠ "") (located : m.locate false (r.slot url).host = .ok ⟨loc, some .directory⟩) :
    ⟨url, (r.slot url).host, plainFiles (m.files.children loc)⟩ ∈ hs := by
  obtain ⟨dir, found, rfl, lies⟩ := hm.of_locate_join host (Segment.isName_encode full) located
  rcases holdings_cases ok with ⟨-, missing⟩ | ⟨dir', found', all, eq⟩
  · have read := Machine.list_eq_ok_iff.mpr ⟨dir, found, rfl⟩
    rw [missing] at read
    cases read
  · rw [found] at found'
    cases found'
    refine (mem_listing eq).mpr ⟨_, hm.files.mem_children.mpr lies, ?_⟩
    have short := (Machine.isPath_of_locate located).short
    have followed : m.locate true _ = _ := hm.locate_join found lies short (by simp)
    have read := Machine.list_eq_ok_iff.mpr ⟨_, Machine.find_eq_ok_iff.mpr followed, rfl⟩
    rw [holding?, Segment.decode?_encode, holdingOf?_directory, read]
    rfl

/-! ### The order of the entries -/

/-- The names tell the URLs, so no two entries tell one. -/
theorem nodup_urls {entries : List (String × Entry)} (distinct : (entries.map Prod.fst).Nodup) :
    ((entries.filterMap fun p => (r.holding? m p).toOption.join).map Holding.url).Nodup := by
  rw [List.Nodup, List.pairwise_map, List.pairwise_filterMap]
  have named {p : String × Entry} {h : Holding} (held : (r.holding? m p).toOption.join = some h) :
      Segment.encode h.url = p.1 := by
    cases read : r.holding? m p with
    | error e =>
      rw [read] at held
      cases held
    | ok o =>
      rw [read] at held
      obtain rfl : o = some h := held
      exact (holding?_eq_some read).2.1
  refine (List.pairwise_map.mp distinct).imp fun {p p'} ne h held h' held' same => ne ?_
  rw [← named held, ← named held', same]

theorem ascending_urls (hm : m.WellFormed) (ok : r.holdings m = .ok hs) : Ascending (hs.map Holding.url) := by
  rcases holdings_cases ok with ⟨rfl, -⟩ | ⟨dir, -, -, eq⟩
  · exact .nil
  · rw [eq]
    exact ascending_mergeSort (nodup_urls (hm.files.children_nodup dir))

section Reordered

variable {fs : FileSystem} (hm : m.WellFormed) (perm : fs.entries.Perm m.files.entries)

include hm perm

theorem find_of_perm (path : String) : { m with files := fs }.find path = m.find path :=
  Machine.find_congr (hm.files.entry?_of_perm perm) path

theorem holdingOf?_of_perm (url : Option String) :
    r.holdingOf? { m with files := fs } name e url = r.holdingOf? m name e url := by
  cases e with
  | file => rfl
  | link => rfl
  | directory =>
    cases url with
    | none => rfl
    | some url =>
      rw [holdingOf?_directory, holdingOf?_directory, Machine.list, Machine.list, find_of_perm hm perm]
      split
      · rfl
      · next dir _ =>
        have files : plainFiles (fs.children dir) = plainFiles (m.files.children dir) :=
          (plainFiles_eq_of_perm (FileSystem.children_perm perm dir).symm (hm.files.children_nodup dir)).symm
        simp only [Except.map, files]
      · rfl

/-- The listing does not tell in which order the directories were read. -/
theorem holdings_of_perm (ok : r.holdings m = .ok hs) : r.holdings { m with files := fs } = .ok hs := by
  rcases holdings_cases ok with ⟨rfl, missing⟩ | ⟨dir, found, all, eq⟩
  · have missing' : { m with files := fs }.list r.host = .error .notFound := by
      rw [Machine.list] at missing ⊢
      rw [find_of_perm hm perm]
      cases found : m.find r.host with
      | error e =>
        rw [found] at missing
        exact missing
      | ok p =>
        obtain ⟨loc, e⟩ := p
        rw [found] at missing
        cases e <;> cases missing
    rw [holdings, missing']
  · have read : { m with files := fs }.list r.host = .ok (fs.children dir) := by
      refine Machine.list_eq_ok_iff.mpr ⟨dir, ?_, rfl⟩
      rw [find_of_perm hm perm]
      exact found
    have entries := FileSystem.children_perm perm dir
    have every : ∀ p ∈ fs.children dir,
        r.holding? { m with files := fs } p = .ok (r.holding? m p).toOption.join := by
      intro p hp
      obtain ⟨o, held⟩ := all p (entries.mem_iff.mp hp)
      have same : r.holding? { m with files := fs } p = r.holding? m p := holdingOf?_of_perm hm perm _
      rw [same, held]
      rfl
    rw [holdings_of_entries read, filterMapM_of_ok every, eq]
    -- No two of the URLs are equal, so that sorting by them leaves no choice.
    exact congrArg Except.ok
      (mergeSort_eq_of_perm (entries.symm.filterMap _) (nodup_urls (hm.files.children_nodup dir))).symm

end Reordered

/-! ### What is listed and what is asked for -/

/-- A listed file is found by its path, unless the path is too long to be looked up. -/
theorem isCached_of_listed (hm : m.WellFormed) (ok : r.holdings m = .ok hs) (mem : h ∈ hs) {f : String}
    (file : f ∈ h.files) {b : Build} (cache : b.cache = r) :
    b.isCached m h.url f = decide (((r.slot h.url).hostFile f).utf8ByteSize ≤ FileSystem.maxPath) := by
  obtain ⟨-, path, loc, -, led, files⟩ := listed hm ok mem
  rw [files, mem_plainFiles] at file
  obtain ⟨content, child⟩ := file
  have lies := hm.files.mem_children.mp child
  rw [Build.isCached, cache, Slot.hostFile, ← path]
  by_cases short : (Host.Path.join h.path f).utf8ByteSize ≤ FileSystem.maxPath
  · have located : m.locate true _ = _ := hm.locate_join led lies short (by simp)
    rw [Machine.pathExists, Machine.find_eq_ok_iff.mpr located, decide_eq_true short]
  · have lost : ∀ p, m.locate true (Host.Path.join h.path f) ≠ .ok p :=
      fun p located => short (Machine.isPath_of_locate located).short
    rw [decide_eq_false short, Machine.pathExists]
    cases found : m.find (Host.Path.join h.path f) with
    | error => rfl
    | ok p => exact absurd (Machine.find_eq_ok_iff.mp found) (lost _)

/-- A cache with one file, and a link that is not shown. -/
def single : Machine where
  files := ⟨[(["cache"], .directory), (["cache", "a"], .directory), (["cache", "a", "f"], .file []),
    (["cache", "b"], .link "a")]⟩
  workingDirectory := []
  home := none

theorem single_wellFormed : single.WellFormed := by decide

theorem holdings_single (found : single.find r.host = .ok (["cache"], .directory))
    (short : (Host.Path.join r.host "a").utf8ByteSize ≤ FileSystem.maxPath) :
    r.holdings single = .ok [⟨"a", Host.Path.join r.host "a", ["f"]⟩] := by
  have read : single.list r.host = .ok [("a", .directory), ("b", .link "a")] :=
    Machine.list_eq_ok_iff.mpr ⟨_, found, rfl⟩
  have led : single.locate true (Host.Path.join r.host "a") = .ok ⟨["cache", "a"], some .directory⟩ :=
    single_wellFormed.locate_join found rfl short (by simp)
  have inside : single.list (Host.Path.join r.host "a") = .ok [("f", .file [])] :=
    Machine.list_eq_ok_iff.mpr ⟨_, Machine.find_eq_ok_iff.mpr led, rfl⟩
  have directory : r.holding? single ("a", .directory) = .ok (some ⟨"a", Host.Path.join r.host "a", ["f"]⟩) := by
    have decoded : Segment.decode? "a" = some "a" := Segment.decode?_encode "a"
    have files : plainFiles [("f", Entry.file [])] = ["f"] := List.mergeSort_singleton _
    rw [holding?, decoded, holdingOf?_directory, inside]
    simp only [Except.map, files]
  have other : r.holding? single ("b", .link "a") = .ok none := rfl
  have all : [("a", Entry.directory), ("b", Entry.link "a")].filterMapM (r.holding? single) =
      .ok [⟨"a", Host.Path.join r.host "a", ["f"]⟩] := by
    rw [List.filterMapM_cons, directory, List.filterMapM_cons, other]
    rfl
  rw [holdings_of_entries read, all]
  exact congrArg Except.ok (List.mergeSort_singleton _)

def slashed (path : String) : Nat → String
  | 0 => path
  | n + 1 => (slashed path n).push '/'

theorem utf8ByteSize_slashed (path : String) (n : Nat) : (slashed path n).utf8ByteSize = path.utf8ByteSize + n := by
  induction n with
  | zero => rfl
  | succ n ih =>
    have slash : '/'.utf8Size = 1 := rfl
    rw [slashed, String.utf8ByteSize_push, ih, slash]
    rfl

theorem named_slashed (path : String) (n : Nat) :
    FileSystem.named (slashed path n).toList = FileSystem.named path.toList := by
  induction n with
  | zero => rfl
  | succ n ih => rw [slashed, String.toList_push, FileSystem.named_concat, ih]

theorem mem_slashed {path : String} {c : Char} (h : c ≠ '/') (n : Nat) :
    c ∈ (slashed path n).toList ↔ c ∈ path.toList := by
  induction n with
  | zero => rfl
  | succ n ih => simp [slashed, ih, h]

theorem join_slashed (path : String) (n : Nat) {part : String} (relative : Host.Path.isAbsolute part = false) :
    Host.Path.join (slashed path (n + 1)) part = slashed path (n + 1) ++ part := by
  have full : slashed path (n + 1) ≠ "" := by simp [slashed]
  have inside : ¬ (Host.Path.isAbsolute part ∨ (slashed path (n + 1)).isEmpty) := by simp [relative, full]
  rw [Host.Path.join, if_neg inside, if_pos]
  simp [slashed]

theorem find_single {n : Nat} (short : n ≤ 4090) :
    single.find (slashed "cache" n) = .ok (["cache"], .directory) := by
  have size : "cache".utf8ByteSize = 5 := by decide
  have isPath : IsPath (slashed "cache" n) := by
    refine ⟨fun empty => ?_, ?_, ?_⟩
    · have none := utf8ByteSize_slashed "cache" n
      rw [empty, size, String.utf8ByteSize_empty] at none
      omega
    · rw [mem_slashed (by decide)]
      decide
    · rw [utf8ByteSize_slashed, size, FileSystem.maxPath]
      omega
  have proper : IsName "cache" := by decide
  have origin : single.origin (slashed "cache" n) = [] := by
    unfold Machine.origin
    split <;> rfl
  refine single_wellFormed.find_directory_iff.mpr ⟨isPath, ?_⟩
  rw [origin, named_slashed, proper.named]
  refine FileSystem.walk_into (by decide) fun _ target link => ?_
  cases link

/-- A directory can be listed under the longest path that is looked up, and then the paths of its files are too long. -/
theorem lost_of_longest {host : String} (found : single.find host = .ok (["cache"], .directory))
    (longest : (Host.Path.join host "a").utf8ByteSize = FileSystem.maxPath) :
    (Root.mk host "/c").holdings single = .ok [⟨"a", Host.Path.join host "a", ["f"]⟩] ∧
    ((Build.start .osx ⟨host, "/c"⟩).fetch single "a" "f").1 = .scheduled := by
  have ok : (Root.mk host "/c").holdings single = .ok [⟨"a", Host.Path.join host "a", ["f"]⟩] :=
    holdings_single found (Nat.le_of_eq longest)
  have long : FileSystem.maxPath < (((Root.mk host "/c").slot "a").hostFile "f").utf8ByteSize := by
    have full := (single_wellFormed.find_directory_iff.mp found).1.ne_empty
    have inside : Host.Path.join host "a" ≠ "" := Host.Path.join_ne_empty full (by decide)
    have name : Segment.encode "a" = "a" := by decide
    have one : "f".utf8ByteSize = 1 := by decide
    have longer : _ + "f".utf8ByteSize ≤ _ := Host.Path.le_utf8ByteSize_join inside (by decide)
    rw [Slot.hostFile, slot, name]
    dsimp only
    omega
  have lost : (Build.start .osx ⟨host, "/c"⟩).isCached single "a" "f" = false :=
    (isCached_of_listed single_wellFormed ok List.mem_cons_self List.mem_cons_self rfl).trans
      (decide_eq_false (Nat.not_le.mpr long))
  refine ⟨ok, ?_⟩
  rw [Build.fetch_of_new List.not_mem_nil, lost]
  rfl

end Root

end Provisioning.Cache
