import Provisioning.Proofs.Build.Calls
import Provisioning.Proofs.Recipe.Shipped

/-! What recipes write into a session. A writing knows the directories that were opened around it since its
recipe, block or run began, as the text of the tree has them; what a build has open comes around these. A run
adds the directives of its writings, and leaves open what was open before. -/

namespace Provisioning

variable {τ α γ : Type}

/-- What is written into a session. A script stands in directories, the innermost first. -/
inductive Writing where
  /-- A directive that is handed over as it is. -/
  | directive (d : Directive)
  | script (scopes : List String) (privileged : Bool) (code : String)
  /-- The download that a request schedules. -/
  | download (scopes : List String) (url path : String)
deriving DecidableEq, Repr

namespace Writing

/-- The same writing with `outer` open around it. -/
def inside (outer : List String) : Writing → Writing
  | .directive d => .directive d
  | .script scopes privileged code => .script (scopes ++ outer) privileged code
  | .download scopes url path => .download (scopes ++ outer) url path

/-- The fragment that runs `code` in the innermost of `scopes`. -/
def fragment (scopes : List String) (privileged : Bool) (code : String) : Directive :=
  .shell ⟨Shell.inDirectory code (scopes.headD "."), privileged, scopes.headD "."⟩

/-- The directive of a writing. -/
def written : Writing → Directive
  | .directive d => d
  | .script scopes privileged code => fragment scopes privileged code
  | .download scopes url path => fragment scopes false (Shell.download url path)

theorem inside_inside (inner outer : List String) (w : Writing) :
    (w.inside inner).inside outer = w.inside (inner ++ outer) := by
  cases w with
  | directive d => rfl
  | script scopes privileged code => simp [inside]
  | download scopes url path => simp [inside]

end Writing

/-- From `b` on `ws` was written, in the directories that `b` has open, and the same are open again. -/
structure Build.Writes (b : Build) (ws : List Writing) (b' : Build) : Prop where
  directories : b'.directories = b.directories
  session : b'.session.directives =
    b.session.directives ++ ws.map fun w => (w.inside b.directories).written

namespace Build.Writes

variable {b b' b'' : Build} {ws ws' : List Writing}

theorem refl (b : Build) : b.Writes [] b := ⟨rfl, (List.append_nil _).symm⟩

theorem trans (h : b.Writes ws b') (h' : b'.Writes ws' b'') : b.Writes (ws ++ ws') b'' := by
  refine ⟨h'.directories.trans h.directories, ?_⟩
  rw [h'.session, h.session, h.directories, List.map_append, List.append_assoc]

theorem session_prefix (h : b.Writes ws b') : b.session.directives <+: b'.session.directives :=
  h.session ▸ List.prefix_append ..

/-- A directory is open around all that is written between its opening and its closing. -/
theorem leaveTo {directory : String} (h : (b.enter directory).Writes ws b') :
    b.Writes (ws.map (·.inside [directory])) (b'.leaveTo b.depth) := by
  constructor
  · have opened : b'.directories = directory :: b.directories := h.directories
    simp [Build.leaveTo, depth, opened]
  · have added : b'.session.directives =
        b.session.directives ++ ws.map fun w => (w.inside (directory :: b.directories)).written := h.session
    simp [Build.leaveTo, added, Writing.inside_inside]

end Build.Writes

/-! ### Recipes -/

/-- What a request writes. -/
def Build.downloads (b : Build) (m : Host.Machine) (url file : String) : List Writing :=
  if (b.fetch m url file).1 = .scheduled then [.download [] url (b.guestFile url file)] else []

theorem Build.add_writes (b : Build) (d : Directive) {w : Writing}
    (h : (w.inside b.directories).written = d) : b.Writes [w] (b.add d) := ⟨rfl, by rw [← h]; rfl⟩

theorem Build.fetch_writes (b : Build) (m : Host.Machine) (url file : String) :
    b.Writes (b.downloads m url file) (b.fetch m url file).2 := by
  unfold downloads
  obtain ⟨-, eq⟩ | ⟨-, -, eq⟩ | ⟨-, -, eq⟩ := b.fetch_cases m url file
  · rw [eq]
    exact .refl b
  · rw [eq]
    exact ⟨rfl, (List.append_nil _).symm⟩
  · rw [eq]
    exact ⟨rfl, rfl⟩

theorem Build.runIn_writes (b : Build) (directory : Option String) (code : String) :
    b.Writes [.script directory.toList false code] (b.runIn directory code) := by
  cases directory with
  | none => exact b.add_writes _ rfl
  | some directory => exact Writes.leaveTo ((b.enter directory).add_writes _ (w := .script [] false code) rfl)

def Step.writings (s : Site) : Step → List Writing
  | .add d => [.directive d]
  | .run privileged code => [.script [] privileged code]
  | .runIn directory code => [.script directory.toList false code]
  | .install i =>
    s.build.downloads s.machine i.url i.file
      ++ [.script [] i.privileged (i.script (s.build.guestFile i.url i.file))]
  | .requireUnbound _ | .ensureDirectory _ => []

/-- The writings of the steps that are taken. -/
def Provision.writings : Provision α → Site → List Writing
  | .done _, _ => []
  | .fail _, _ => []
  | .step first next, s =>
    first.writings s ++
      match first.perform s with
      | (.ok (), s) => next.writings s
      | (.error _, _) => []
  | .request url file next, s =>
    let (status, build) := s.build.fetch s.machine url file
    s.build.downloads s.machine url file
      ++ (next (s.build.guestFile url file, status)).writings { s with build }

theorem Step.perform_writes (step : Step) (s : Site) :
    s.build.Writes (step.writings s) (step.perform s).2.build := by
  cases step with
  | add d => exact s.build.add_writes d rfl
  | run privileged code => exact s.build.add_writes _ rfl
  | runIn directory code => exact s.build.runIn_writes directory code
  | install i =>
    have fetched := s.build.fetch_writes s.machine i.url i.file
    have installed := (s.build.fetch s.machine i.url i.file).2.add_writes _
      (w := .script [] i.privileged (i.script (s.build.guestFile i.url i.file))) rfl
    exact fetched.trans installed
  | requireUnbound guest =>
    rw [perform]
    split <;> exact .refl _
  | ensureDirectory path =>
    simp only [perform]
    split <;> exact .refl _

/-- A recipe writes what its steps write. -/
theorem Provision.perform_writes (p : Provision α) (s : Site) :
    s.build.Writes (p.writings s) (p.perform s).2.build := by
  induction p generalizing s with
  | done a => exact .refl _
  | fail e => exact .refl _
  | step first next ih =>
    have wrote := first.perform_writes s
    simp only [perform, writings]
    rcases h : first.perform s with ⟨e | _, s'⟩ <;> rw [h] at wrote
    · rw [List.append_nil]
      exact wrote
    · exact wrote.trans (ih s')
  | request url file next ih =>
    have fetched := s.build.fetch_writes s.machine url file
    rw [perform, writings]
    exact fetched.trans (ih _ { s with build := (s.build.fetch s.machine url file).2 })

/-- The writing hands over a fragment as it is. -/
def Writing.Hands (f : Fragment) (w : Writing) : Prop := w = .directive (.shell f)

/-- Fragments are no directives that a recipe hands over: it writes scripts and downloads instead. -/
theorem Provision.Alike.not_hands {g : α → γ} {p q : Provision α} (h : p.Alike Step.Plain g q) (s : Site)
    (f : Fragment) : ∀ w ∈ p.writings s, ¬w.Hands f := by
  have downloads (b : Build) (m : Host.Machine) (url file : String) :
      ∀ w ∈ b.downloads m url file, ¬w.Hands f := by
    unfold Build.downloads
    split <;> simp [Writing.Hands]
  induction h generalizing s with
  | done same => simp [writings]
  | fail e => simp [writings]
  | @step first plain p q _ ih =>
    have own : ∀ w ∈ first.writings s, ¬w.Hands f := by
      cases first with
      | add d =>
        rintro w hw rfl
        obtain rfl : .shell f = d := Writing.directive.inj (List.mem_singleton.mp hw)
        cases plain
      | install i =>
        intro w hw
        rcases List.mem_append.mp hw with hw | hw
        · exact downloads _ _ _ _ w hw
        · rw [List.mem_singleton.mp hw]
          nofun
      | _ => simp [Step.writings, Writing.Hands]
    intro w hw
    rcases List.mem_append.mp hw with hw | hw
    · exact own w hw
    · revert hw
      rcases first.perform s with ⟨e | _, s'⟩
      · nofun
      · exact ih s' w
  | request url file _ ih =>
    intro w hw
    rcases List.mem_append.mp hw with hw | hw
    · exact downloads _ _ _ _ w hw
    · exact ih _ _ .present _ w hw

/-! ### Statements -/

/-- The action writes what `ws` tells. -/
def Nested.Writes (ws : Site → List Writing) (a : Nested τ α) : Prop :=
  ∀ (s : Site) (t : τ), s.build.Writes (ws s) (a.runOn (s, t)).2.1.build

/-- The writings of a statement whose block, if there is one, has the writings `block`. -/
def Course.writings (block : Option (Site → List Writing)) : Course → Site → List Writing
  | .refused _, _ => []
  | .steps p, s => p.writings s
  | .inside directory, s =>
    match block with
    | some ws => (ws (s.enter directory)).map (·.inside [directory])
    | none => []

def Registry.writings (r : Registry Recipe) (c : Command) (block : Option (Site → List Writing)) (s : Site) :
    List Writing :=
  (r.course c s.build.platform block.isSome).writings block s

namespace Nested.Writes

variable {ws : Site → List Writing} {block : Option (Nested τ Unit)} {blockWs : Option (Site → List Writing)}

theorem inDirectory {a : Nested τ Unit} (h : a.Writes ws) (directory : String) :
    (a.inDirectory directory).Writes fun s => (ws (s.enter directory)).map (·.inside [directory]) :=
  fun s t => Build.Writes.leaveTo (h (s.enter directory) t)

theorem follow (h : Option.Rel Nested.Writes blockWs block) (course : Course) :
    (course.follow block).Writes (course.writings blockWs) := by
  cases course with
  | refused e => exact fun s t => .refl _
  | steps p => exact fun s t => p.perform_writes s
  | inside directory =>
    cases h with
    | some h => exact h.inDirectory directory
    | none => exact fun s t => .refl _

/-- A statement writes what its recipe or its block writes. -/
theorem dispatch (h : Option.Rel Nested.Writes blockWs block) (r : Registry Recipe) (c : Command) :
    (r.dispatch c block).Writes (r.writings c blockWs) := by
  intro s t
  have same : blockWs.isSome = block.isSome := by cases h <;> rfl
  rw [Registry.dispatch_runOn, Registry.writings, same]
  exact follow h _ s t

end Nested.Writes

/-- What a statement hands over was handed over in its block. -/
theorem Registry.hands_of_mem {block : Option (Site → List Writing)} {c : Command} {s : Site} {w : Writing}
    {f : Fragment} (h : w ∈ Recipe.shipped.writings c block s) (hands : w.Hands f) :
    ∃ ws ∈ block, ∃ s', ∃ w ∈ ws s', w.Hands f := by
  unfold Registry.writings at h
  cases eq : Recipe.shipped.course c s.build.platform block.isSome with
  | refused e =>
    rw [eq] at h
    cases h
  | steps p =>
    rw [eq] at h
    exact absurd hands ((shipped_course_plain eq).not_hands s f w h)
  | inside directory =>
    rw [eq] at h
    cases block with
    | none => cases h
    | some ws =>
      obtain ⟨w', hw, rfl⟩ := List.mem_map.mp h
      refine ⟨ws, rfl, _, w', hw, ?_⟩
      cases w' with
      | directive d => exact hands
      | _ => cases hands

end Provisioning
