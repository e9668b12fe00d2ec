import Provisioning.Proofs.Build.Operation
import Provisioning.Proofs.Shell.Script

/-! Downloads in a run of operations on a new build. A file that is asked for is downloaded at most once, and
only if the host had no such file when it was first asked for; an installation comes after whatever makes its
artifact available. -/

namespace Provisioning

namespace Call

/-- At the moment of the call the host holds the file. -/
def Cached (cache : Cache.Root) (c : Call) : Prop :=
  c.site.machine.pathExists ((cache.slot c.url).hostFile c.file) = true

/-- What a request is answered after the calls `past`, and what it adds. -/
structure Answered (cache : Cache.Root) (past : List Call) (c : Call) : Prop where
  path : c.path = (cache.slot c.url).guestFile c.file
  again : c.pair ∈ past.map pair →
    c.status = .alreadyRequested ∧ c.fetched.session = c.site.build.session
  present : c.pair ∉ past.map pair → c.Cached cache →
    c.status = .present ∧ c.fetched.session = c.site.build.session
  missing : c.pair ∉ past.map pair → ¬c.Cached cache →
    c.status = .scheduled ∧ c.fetched.session = c.site.build.session.push (.shell
      ⟨Shell.inDirectory (Shell.download c.url c.path) c.site.build.currentDirectory, false,
        c.site.build.currentDirectory⟩)

end Call

section Run

variable {platform : Platform} {cache : Cache.Root} {m : Host.Machine} {s : Site} {l past : List Call}
  {c : Call}

/-- A new build remembers the calls that were made, and no others. -/
theorem Moves.requested (h : Moves (⟨.start platform cache, m⟩, []) (s, l)) (p : String × String) :
    p ∈ s.build.requested ↔ p ∈ l.map Call.pair := by
  obtain ⟨new, rfl, requested⟩ := h.grown.called
  rw [requested p]
  simp [Build.start]

theorem Moves.answered (h : Moves (⟨.start platform cache, m⟩, []) (c.site, past)) :
    c.Answered cache past := by
  have same : c.site.build.cache = cache := h.grown.cache
  have path : c.path = (cache.slot c.url).guestFile c.file := by rw [Call.path, Build.guestFile, same]
  have cached : c.site.build.isCached c.site.machine c.url c.file = true ↔ c.Cached cache := by
    rw [Build.isCached, same, Call.Cached]
  have asked : c.pair ∈ c.site.build.requested ↔ c.pair ∈ past.map Call.pair := h.requested c.pair
  have answer {status : FetchStatus} {b : Build}
      (eq : c.site.build.fetch c.site.machine c.url c.file = (status, b)) (session : Session)
      (kept : b.session = session) : c.status = status ∧ c.fetched.session = session := by
    rw [Call.status, Call.fetched, eq]
    exact ⟨rfl, kept⟩
  obtain ⟨old, eq⟩ | ⟨new, present, eq⟩ | ⟨new, missing, eq⟩ :=
    c.site.build.fetch_cases c.site.machine c.url c.file
  · have old := asked.mp old
    exact ⟨path, fun _ => answer eq _ rfl, fun new => absurd old new, fun new => absurd old new⟩
  · have new : c.pair ∉ past.map Call.pair := mt asked.mpr new
    exact ⟨path, fun old => absurd old new, fun _ _ => answer eq _ rfl,
      fun _ missing => absurd (cached.mp present) missing⟩
  · have new : c.pair ∉ past.map Call.pair := mt asked.mpr new
    refine ⟨path, fun old => absurd old new, fun _ present => ?_, fun _ _ => answer eq _ rfl⟩
    rw [cached.mpr present] at missing
    cases missing

/-- Every request of a run is answered by what was asked for earlier and by what the host holds at that moment;
requests for other files have no part in it. What it adds stays in the session. -/
theorem request_answered (platform : Platform) (cache : Cache.Root) (m : Host.Machine) (ops : List Operation)
    (past rest : List Call) (c : Call)
    (h : Operation.allCalls ops ⟨.start platform cache, m⟩ = past ++ c :: rest) :
    c.Answered cache past ∧
      c.fetched.session.directives <+:
        (Operation.performEach ops ⟨.start platform cache, m⟩).2.build.session.directives ∧
      ∀ r ∈ Operation.trace ops ⟨.start platform cache, m⟩, r.before = c.site →
        r.operation = .fetch c.url c.file → r.outcome = .ok (some (c.path, c.status)) := by
  have moves := Operation.performEach_moves ops ⟨.start platform cache, m⟩
  rw [h] at moves
  obtain ⟨before, after⟩ := moves.split
  refine ⟨before.answered, c.fetched_prefix.trans after.grown.session, fun r hr site fetch => ?_⟩
  have genuine := Operation.performEach_genuine ops ⟨.start platform cache, m⟩ r hr
  rw [Operation.genuine_fetch genuine fetch, site]
  rfl

/-- A second request for a file on a host without files. -/
theorem request_answered_again :
    let c : Call := .request ⟨.start .osx ⟨"/host", "/guest"⟩, ⟨.empty, [], none⟩⟩ "u" "f"
    (Call.request c.after "u" "f").Answered ⟨"/host", "/guest"⟩ [c] :=
  (request_answered .osx ⟨"/host", "/guest"⟩ ⟨.empty, [], none⟩ [.fetch "u" "f", .fetch "u" "f"] [_] []
    _ (by rw [Operation.allCalls_fetch, Operation.allCalls_fetch]; rfl)).1

/-! ### Installations -/

namespace Installation

/-- The script up to the artifact. -/
def lead : Installation → String
  | .mounted _ label _ =>
    "hdiutil detach " ++ Shell.volume label ++ " > /dev/null 2>&1 || true\n" ++ "hdiutil attach "
  | .flat _ => "installer -pkg "
  | .tar _ => "tar -x -C " ++ Shell.applications ++ " -f "
  | .zip _ => "unzip -qq -o -d " ++ Shell.applications ++ " "

/-- The script after the artifact. -/
def trail : Installation → String
  | .mounted _ label package =>
    " -mountroot " ++ Shell.mountRoot ++ " -nobrowse\n" ++ "sudo installer -pkg "
      ++ package.word (Shell.volume label) ++ " -target /\n" ++ "hdiutil detach " ++ Shell.volume label
  | .flat _ => " -target /"
  | .tar _ => ""
  | .zip _ => ""

theorem script_eq (i : Installation) (path : String) :
    i.script path = i.lead ++ Shell.doubleQuote path ++ i.trail := by
  unfold script lead trail
  cases i with
  | mounted url label package =>
    unfold Shell.installMounted
    simp only [String.append_assoc]
  | flat url => rfl
  | tar url => exact (String.append_empty ..).symm
  | zip url => exact (String.append_empty ..).symm

/-- The text of the fragment. What is cut off its end is after the artifact. -/
theorem text_eq (i : Installation) (path directory : String) :
    Shell.inDirectory (i.script path) directory =
      "set -e\npushd " ++ Shell.escapePath directory ++ " > /dev/null\n" ++ i.lead ++ Shell.doubleQuote path
        ++ (String.ofList (Text.trimEnd i.trail.toList) ++ "\npopd > /dev/null\n") := by
  rw [script_eq, Shell.inDirectory_doubleQuote, String.append_assoc]

end Installation

/-- The fragment that downloads `url` to the path that is quoted as `artifact`, unless it is there. -/
def downloadTo (artifact url directory : String) : Directive :=
  .shell ⟨Shell.inDirectory ("[ -f " ++ artifact ++ " ] || curl -fL --create-dirs -o " ++ artifact ++ " "
    ++ Shell.doubleQuote url) directory, false, directory⟩

/-- Where a file was asked for, it was first asked for somewhere. -/
theorem Call.exists_first {p : String × String} (h : p ∈ l.map Call.pair) :
    ∃ older q newer, l = older ++ q :: newer ∧ q.pair = p ∧ p ∉ older.map Call.pair := by
  obtain ⟨before, after, split, new⟩ := List.eq_append_cons_of_mem h
  obtain ⟨older, later, rfl, rfl, found⟩ := List.map_eq_append_iff.mp split
  obtain ⟨q, newer, rfl, first, -⟩ := List.map_eq_cons_iff.mp found
  exact ⟨older, q, newer, rfl, first, new⟩

namespace Call.Answered

/-- The fragment that a first request adds, for a file that the host does not hold. -/
theorem scheduled (h : c.Answered cache past) (first : c.pair ∉ past.map Call.pair)
    (missing : ¬c.Cached cache) :
    c.fetched.session.directives = c.site.build.session.directives ++
      [downloadTo (Shell.doubleQuote ((cache.slot c.url).guestFile c.file)) c.url
        c.site.build.currentDirectory] := by
  rw [(h.missing first missing).2, ← h.path]
  rfl

/-- What a request adds. -/
theorem downloads (h : c.Answered cache past) :
    ∃ downloads, c.fetched.session.directives = c.site.build.session.directives ++ downloads ∧
      (downloads = [] ∨ downloads = [downloadTo (Shell.doubleQuote ((cache.slot c.url).guestFile c.file))
        c.url c.site.build.currentDirectory]) := by
  by_cases seen : c.pair ∈ past.map pair
  · exact ⟨[], by rw [(h.again seen).2, List.append_nil], .inl rfl⟩
  · by_cases cached : c.Cached cache
    · exact ⟨[], by rw [(h.present seen cached).2, List.append_nil], .inl rfl⟩
    · exact ⟨_, h.scheduled seen cached, .inr rfl⟩

/-- What was asked for was on the host at first, or else the request's build downloads it. -/
theorem available (h : c.Answered cache past) (first : c.pair ∉ past.map Call.pair) :
    c.Cached cache ∨ ∃ d, downloadTo (Shell.doubleQuote ((cache.slot c.url).guestFile c.file)) c.url d ∈
      c.fetched.session.directives := by
  by_cases cached : c.Cached cache
  · exact .inl cached
  · refine .inr ⟨c.site.build.currentDirectory, ?_⟩
    rw [h.scheduled first cached]
    exact List.mem_append_right _ (List.mem_singleton.mpr rfl)

/-- The fragment of an installation comes right after what its request adds. -/
theorem installed {i : Installation} (h : (Call.install s i).Answered cache past) :
    (s.build.install s.machine i).session.directives =
      (Call.install s i).fetched.session.directives ++
        [.shell ⟨Shell.inDirectory (i.script ((cache.slot i.url).guestFile i.file)) s.build.currentDirectory,
          i.privileged, s.build.currentDirectory⟩] := by
  have path : s.build.guestFile i.url i.file = (cache.slot i.url).guestFile i.file := h.path
  rw [Build.install_eq, ← path]
  rfl

end Call.Answered

/-- Somewhere the file of a call was first asked for. The host held it there, or else it is downloaded before
anything that comes after the request of the call. -/
theorem Moves.available (h : Moves (⟨.start platform cache, m⟩, []) (c.site, past)) :
    ∃ older q newer, past ++ [c] = older ++ q :: newer ∧ q.pair = c.pair ∧ c.pair ∉ older.map Call.pair ∧
      (q.Cached cache ∨ ∃ d, downloadTo (Shell.doubleQuote ((cache.slot c.url).guestFile c.file)) c.url d ∈
        c.fetched.session.directives) := by
  by_cases seen : c.pair ∈ past.map Call.pair
  · obtain ⟨older, q, newer, rfl, pair, first⟩ := Call.exists_first seen
    refine ⟨older, q, newer ++ [c], by simp, pair, first, ?_⟩
    obtain ⟨url, file⟩ := Prod.mk.inj pair
    obtain ⟨before, since⟩ := h.split
    have kept := (q.fetched_prefix.trans since.grown.session).trans c.fetches.session_prefix
    rw [← pair] at first
    refine (before.answered.available first).imp_right ?_
    rintro ⟨d, download⟩
    rw [url, file] at download
    exact ⟨d, kept.subset download⟩
  · exact ⟨past, c, [], rfl, rfl, seen, h.answered.available seen⟩

/-- Every installation of a run comes after what makes its artifact available: the host held the file when it
was first asked for, or the session has a download to the very path that the installation reads. -/
theorem artifact_available (platform : Platform) (cache : Cache.Root) (m : Host.Machine)
    (ops : List Operation) (past rest : List Call) (s : Site) (i : Installation)
    (h : Operation.allCalls ops ⟨.start platform cache, m⟩ = past ++ .install s i :: rest) :
    let directory := s.build.currentDirectory
    let path := (cache.slot i.url).guestFile i.file
    let artifact := Shell.doubleQuote path
    let text := Shell.inDirectory (i.script path) directory
    let after := (s.build.install s.machine i).session.directives
    ∃ downloads ending,
      after = s.build.session.directives ++ downloads ++ [.shell ⟨text, i.privileged, directory⟩] ∧
      (downloads = [] ∨ downloads = [downloadTo artifact i.url directory]) ∧
      text = "set -e\npushd " ++ Shell.escapePath directory ++ " > /dev/null\n" ++ i.lead ++ artifact
        ++ ending ∧
      after <+: (Operation.performEach ops ⟨.start platform cache, m⟩).2.build.session.directives ∧
      ∃ older q newer, past ++ [.install s i] = older ++ q :: newer ∧ q.pair = (i.url, i.file) ∧
        (i.url, i.file) ∉ older.map Call.pair ∧
        (q.Cached cache ∨
          ∃ d, downloadTo artifact i.url d ∈ s.build.session.directives ++ downloads) := by
  intro directory path artifact text after
  have moves := Operation.performEach_moves ops ⟨.start platform cache, m⟩
  rw [h] at moves
  obtain ⟨before, later⟩ := moves.split
  have answered := Moves.answered before
  have available := Moves.available before
  have installed := answered.installed
  obtain ⟨downloads, fetched, kind⟩ := answered.downloads
  rw [fetched] at available installed
  exact ⟨downloads, _, installed, kind, i.text_eq path directory, later.grown.session, available⟩

/-- An archive that is installed after a request for its file. -/
theorem artifact_available_after_request :
    let c : Call := .request ⟨.start .osx ⟨"/host", "/guest"⟩, ⟨.empty, [], none⟩⟩ "u" "install.zip"
    ∃ downloads d, (c.after.build.install c.after.machine (.zip "u")).session.directives =
      c.after.build.session.directives ++ downloads ++ [d] := by
  intro c
  obtain ⟨downloads, _, installed, -⟩ := artifact_available .osx ⟨"/host", "/guest"⟩ ⟨.empty, [], none⟩
    [.fetch "u" "install.zip", .installZip "u"] [c] [] c.after (.zip "u")
    (by rw [Operation.allCalls_fetch, Operation.allCalls_installZip]; rfl)
  exact ⟨downloads, _, installed⟩

end Run

end Provisioning
