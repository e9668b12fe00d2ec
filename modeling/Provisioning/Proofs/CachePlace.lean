import Provisioning.CommandLine.Run
import Provisioning.Proofs.Host.Beside
import Provisioning.Proofs.SyncedFolders

/-! Where the cache of a configuration lies. The listing of the cache starts from the path of the configuration as it was
given, and an evaluation from the file that the path leads to. Both mean the same directory unless that path ends in a
link. -/

namespace Provisioning

open Host

/-! ### The cache of an evaluation -/

theorem Provision.sites_cache {α : Type} (p : Provision α) {cache : Cache.Root} {s : Site} (held : s.build.cache = cache) :
    ∀ t ∈ p.sites s, t.build.cache = cache := by
  induction p generalizing s with
  | done a => exact nofun
  | fail e => exact nofun
  | step first next ih =>
    have stepped : (first.perform s).2.build.cache = cache := (first.perform_moves s []).grown.cache.trans held
    rw [sites]
    rcases performed : first.perform s with ⟨e | _, s'⟩ <;> rw [performed] at stepped
    · exact List.forall_mem_singleton.mpr stepped
    · exact List.forall_mem_cons.mpr ⟨stepped, ih stepped⟩
  | request url file next ih =>
    have fetched : (s.build.fetch s.machine url file).2.cache = cache :=
      (s.build.fetch_fetches s.machine url file).cache.trans held
    exact List.forall_mem_cons.mpr ⟨fetched, ih _ fetched⟩

theorem Site.cache_maintained (cache : Cache.Root) : Recipe.shipped.Maintains fun s => s.build.cache = cache where
  steps _ _ held := Provision.sites_cache _ held
  enter _ held := held
  leaveTo _ held := held

namespace Evaluation

variable {L : Language} {o : Options} {directory : String} {load : Machine → Except EvaluationError L.Script}
  {m : Machine}

theorem start_cache (o : Options) (directory : String) (m : Machine) :
    (start o directory m).2.build.cache = o.cacheRoot directory := by
  rw [start_eq]
  exact (Provision.perform_moves _ _ []).grown.cache

theorem sites_cache : ∀ s ∈ sites L o directory load m, s.build.cache = o.cacheRoot directory := by
  rw [sites_eq]
  cases started : (start o directory m).1 with
  | error e => exact nofun
  | ok u =>
    have first := start_cache o directory m
    dsimp only
    cases load (start o directory m).2.machine with
    | error e => exact List.forall_mem_singleton.mpr first
    | ok script =>
      exact Config.Script.sites_maintain (Site.cache_maintained (o.cacheRoot directory)) script
        ((start o directory m).2, []) first

end Evaluation

namespace CommandLine

variable {m : Machine} {config file : String} {loc : Location} {content : List UInt8}

/-! ### The two directories -/

theorem configDirectory_isDirectoryOf {name : String}
    (h : FileSystem.marked config.toList = outer config ++ [.into name]) :
    IsDirectoryOf (configDirectory config) config := by
  obtain ⟨directory, found, shown, bare⟩ := parent?_of_marked h
  rw [configDirectory, found]
  dsimp only
  by_cases empty : directory = ""
  · rw [if_pos (String.isEmpty_iff.mpr empty)]
    exact (bare empty).1
  · rw [if_neg (by rwa [String.isEmpty_iff])]
    exact shown empty

theorem parent?_pathOf_isDirectoryOf {dir : Location} {name : String} (proper : ∀ n ∈ dir ++ [name], IsName n) :
    IsDirectoryOf ((Host.Path.parent? (Machine.pathOf (dir ++ [name]))).getD ".") (Machine.pathOf (dir ++ [name])) := by
  obtain ⟨directory, found, shown, bare⟩ := parent?_of_marked (Machine.marked_pathOf proper).2
  rw [found, Option.getD_some]
  refine shown fun empty => ?_
  have relative := (bare empty).2
  rw [Host.Path.isAbsolute, Machine.toList_pathOf] at relative
  cases relative

/-- For a configuration whose path ends in no link, the cache that is listed and the one that an evaluation binds and
looks into are the same directory, or one of their paths comes to a limit of the look-up. -/
theorem one_cache (hm : m.WellFormed) (located : m.locate false config = .ok ⟨loc, some (.file content)⟩)
    (canonical : m.canonicalPath config = .ok file) (o : Options) :
    let listed := o.cacheRoot (configDirectory config)
    let directory := (Host.Path.parent? file).getD "."
    let bound := o.cacheRoot directory
    (m.find listed.host = m.find bound.host ∨
      ∃ e : IoError, e.IsLimit ∧ (m.find listed.host = .error e ∨ m.find bound.host = .error e)) ∧
    evaluateFile o config m = Evaluation.run Evaluation.language o directory (Evaluation.fileScript file) m ∧
      ∀ s ∈ Evaluation.sites Evaluation.language o directory (Evaluation.fileScript file) m, s.build.cache = bound ∧
        s.build.session.directives.head? = some (.syncedFolder bound.host bound.guest) := by
  intro listed directory bound
  refine ⟨?_, ?_⟩
  · obtain rfl := hm.canonicalPath_eq located canonical
    by_cases absolute : Host.Path.isAbsolute o.cacheHost = true
    · left
      change m.find (Host.Path.join _ o.cacheHost) = m.find (Host.Path.join _ o.cacheHost)
      rw [Host.Path.join_of_isAbsolute absolute, Host.Path.join_of_isAbsolute absolute]
    · obtain ⟨dir, name, rfl, lies, marked, -⟩ := hm.file_beside located
      have proper : ∀ n ∈ dir ++ [name], IsName n := fun n hn => (hm.files.names lies n hn).1
      exact hm.find_beside located (configDirectory_isDirectoryOf marked) (parent?_pathOf_isDirectoryOf proper)
        (Bool.eq_false_iff.mpr absolute)
  · refine ⟨Evaluation.evaluateFile_eq canonical, fun s hs => ⟨Evaluation.sites_cache s hs, ?_⟩⟩
    have inOrder : s.CacheFirst bound := Evaluation.sites_cacheFirst s hs
    exact inOrder.first

/-! ### A configuration behind a link -/

/-- A directory with a cache and a link to a configuration that lies in another directory. -/
def linked : Machine where
  files := ⟨[(["provision.lua"], .link "real/provision.lua"), (["real"], .directory),
    (["real", "provision.lua"], .file []), (["provisioning_cache"], .directory)]⟩
  workingDirectory := []
  home := none

theorem linked_wellFormed : linked.WellFormed := by decide

theorem steps_linked : FileSystem.steps "real/provision.lua" = [.into "real", .into "provision.lua"] := by
  decide

theorem walk_linked (follow : Bool) (k : Nat) :
    linked.files.walk follow k [] [.into "real", .into "provision.lua"] =
      .ok ⟨["real", "provision.lua"], some (.file [])⟩ := by
  have outside : "real".utf8ByteSize = 4 := by decide
  have inside : "provision.lua".utf8ByteSize = 13 := by decide
  simp [FileSystem.walk, linked, FileSystem.entry?, FileSystem.maxName, outside, inside, List.lookup_cons]

theorem locate_linked (follow : Bool) :
    linked.locate follow "real/provision.lua" = .ok ⟨["real", "provision.lua"], some (.file [])⟩ := by
  have isPath : IsPath "real/provision.lua" := ⟨by decide, by decide, by decide⟩
  rw [Machine.locate_of_isPath isPath, steps_linked]
  exact walk_linked follow _

theorem locate_link :
    linked.locate true "provision.lua" = .ok ⟨["real", "provision.lua"], some (.file [])⟩ := by
  have isPath : IsPath "provision.lua" := ⟨by decide, by decide, by decide⟩
  have steps : FileSystem.steps "provision.lua" = [.into "provision.lua"] := by decide
  have turned : linked.files.turn FileSystem.maxLinks [] (.into "provision.lua") =
      .leads 39 [] (FileSystem.steps "real/provision.lua") := by
    have relative : Host.Path.isAbsolute "real/provision.lua" = false := by decide
    rw [FileSystem.turn, if_neg (by decide)]
    simp [linked, FileSystem.entry?, FileSystem.maxLinks, relative]
  rw [Machine.locate_of_isPath isPath, steps, FileSystem.walk_cons (.inr rfl)]
  change (linked.files.turn FileSystem.maxLinks [] _).goOn _ _ _ = _
  rw [turned, steps_linked]
  exact walk_linked true 39

theorem canonicalPath_linked {path : String}
    (h : linked.locate true path = .ok ⟨["real", "provision.lua"], some (.file [])⟩) :
    linked.canonicalPath path = .ok "/real/provision.lua" := by
  have whole : Machine.pathOf ["real", "provision.lua"] = "/real/provision.lua" := by decide
  have short : "/real/provision.lua".utf8ByteSize = 19 := by decide
  rw [Machine.canonicalPath_of_locate h, whole]
  simp [Machine.checkLength, short, FileSystem.maxPath, Except.map]

theorem one_cache_linked : linked.WellFormed ∧
    linked.locate false "real/provision.lua" = .ok ⟨["real", "provision.lua"], some (.file [])⟩ ∧
    linked.canonicalPath "real/provision.lua" = .ok "/real/provision.lua" ∧
    let listed := Options.defaults.cacheRoot (configDirectory "real/provision.lua")
    let bound := Options.defaults.cacheRoot ((Host.Path.parent? "/real/provision.lua").getD ".")
    (linked.find listed.host = linked.find bound.host ∨
      ∃ e : IoError, e.IsLimit ∧ (linked.find listed.host = .error e ∨ linked.find bound.host = .error e)) := by
  have canonical := canonicalPath_linked (locate_linked true)
  have alike := one_cache linked_wellFormed (locate_linked false) canonical .defaults
  exact ⟨linked_wellFormed, locate_linked false, canonical, alike.1⟩

/-- A configuration behind a link has its cache beside the file for an evaluation and beside the link for the listing. -/
theorem two_caches : linked.canonicalPath "provision.lua" = .ok "/real/provision.lua" ∧
    linked.find (Options.defaults.cacheRoot (configDirectory "provision.lua")).host =
      .ok (["provisioning_cache"], .directory) ∧
    linked.find (Options.defaults.cacheRoot ((Host.Path.parent? "/real/provision.lua").getD ".")).host =
      .error .notFound := by
  have listed : (Options.defaults.cacheRoot (configDirectory "provision.lua")).host = "./provisioning_cache" := by
    decide
  have bound : (Options.defaults.cacheRoot ((Host.Path.parent? "/real/provision.lua").getD ".")).host =
      "/real/provisioning_cache" := by decide
  have cache : "provisioning_cache".utf8ByteSize = 18 := by decide
  have outside : "real".utf8ByteSize = 4 := by decide
  have here : linked.locate true "./provisioning_cache" = .ok ⟨["provisioning_cache"], some .directory⟩ := by
    have isPath : IsPath "./provisioning_cache" := ⟨by decide, by decide, by decide⟩
    have steps : FileSystem.steps "./provisioning_cache" = [.stay, .into "provisioning_cache"] := by decide
    rw [Machine.locate_of_isPath isPath, steps]
    simp [FileSystem.walk, linked, Machine.origin, FileSystem.entry?, FileSystem.maxName, cache, List.lookup_cons]
  have there : linked.locate true "/real/provisioning_cache" = .ok ⟨["real", "provisioning_cache"], none⟩ := by
    have isPath : IsPath "/real/provisioning_cache" := ⟨by decide, by decide, by decide⟩
    have steps : FileSystem.steps "/real/provisioning_cache" = [.into "real", .into "provisioning_cache"] := by
      decide
    rw [Machine.locate_of_isPath isPath, steps]
    simp [FileSystem.walk, linked, Machine.origin, FileSystem.entry?, FileSystem.maxName, cache, outside, List.lookup_cons]
  rw [listed, bound]
  refine ⟨canonicalPath_linked locate_link, Machine.find_eq_ok_iff.mpr here, ?_⟩
  rw [Machine.find, there]

end CommandLine

end Provisioning
