import DeepJit.Cache.SharedEntryRuns

/-!
# Shared permissions are complete, and contained up to the marker

On a root with the SGID bit every directory and every file of a published entry has its shared mode,
which was synced after it was set and before the directory around it was. Outside the entry modes are
set on new directories only, unless a link in the place of the marker leads out of the entry, since
`write_file_sync` follows it. On a root without the bit no mode is set.
-/

namespace DeepJit.Permissions

open FileTree (Location Tree)

section

variable {host : Host} {s t s' : Files} {source target : List Bytes} {src dst file : Location Bytes}
  {synced made : List Effect}

/-! ### What a published entry is -/

/-- The entry at `src` was moved to `dst` with shared permissions. -/
structure EntryShared (s s' : Files) (src dst : Location Bytes) : Prop where
  directories : ∀ l, s'.tree.isDirectory (l ++ dst) = s.tree.isDirectory (l ++ src)
  files : ∀ l, s.tree.isFile (l ++ src) = true → s'.tree.isFile (l ++ dst) = true
  /-- A directory keeps the SGID bit that it had. -/
  directoryModes : ∀ l, s'.tree.isDirectory (l ++ dst) = true →
    s'.mode (l ++ dst) = 0o775 ||| s.mode (l ++ src) &&& setGid
  fileModes : ∀ l, s'.tree.isFile (l ++ dst) = true → s'.mode (l ++ dst) = 0o664
  synced : ∀ l, (s'.tree.isDirectory (l ++ dst) = true ∨ s'.tree.isFile (l ++ dst) = true) →
    Settled s'.log (l ++ src)
  /-- A directory was synced when everything in it was settled. -/
  ordered : ∀ name l, (s'.tree.isDirectory (name :: l ++ dst) = true ∨ s'.tree.isFile (name :: l ++ dst) = true) →
    ∃ front rest, s'.log = front ++ .fsync (l ++ src) :: rest ∧ Settled front (name :: l ++ src) ∧
      ∀ effect ∈ rest, ¬ effect.Within (l ++ src)
  /-- Outside the entry no mode changed but that of the directory to which the entry was moved, if it
  is new. -/
  contained : ∀ loc before after, .chmod loc before after ∈ s'.log →
    src <:+ loc ∨ after = before ∨ loc = dst.tail ∧ ∃ mode, .mkdir loc mode ∈ s'.log

/-- The marker is written in the entry, or to a file that already has the mode. -/
def MarkerContained (host : Host) (s : Files) (source : List Bytes) (src : Location Bytes) : Prop :=
  ∀ file, s.opened host (Publication.kCommitFileName :: source) = some file →
    src <:+ file ∨ openedMode host s file = 0o664

/-! ### What a commit does -/

/-- A commit that moved its source. It wrote the marker to `file`, and the tree was `t` then. -/
structure Published (host : Host) (file src dst : Location Bytes) (s t s' : Files) (synced made : List Effect) :
    Prop where
  written : WritesAt file s t
  marked : Changes (openEffects host s file ++ [.chmod file (openedMode host s file) 0o664, .fsync file]) s t
  settled : Synced t.tree t.mode (src <:+ ·) synced
  outside : ∀ effect ∈ made, ∃ loc, effect.location = some loc ∧ ¬ src <:+ loc
  chmods : ∀ loc before after, .chmod loc before after ∈ made → loc = dst.tail ∧ ∃ mode, .mkdir loc mode ∈ made
  mkdirs : ∀ loc mode, .mkdir loc mode ∈ made → t.tree.node loc = none
  moved : Changes (synced ++ made ++ [.rename src dst]) t s'
  nodes : ∀ l, s'.tree.node (l ++ dst) = t.tree.node (l ++ src)

theorem marked_cases {effect : Effect}
    (h : effect ∈ openEffects host s file ++ [.chmod file (openedMode host s file) 0o664, .fsync file]) :
    effect = .create file (0o666 &&& ~~~host.umask) ∨ effect = .chmod file (openedMode host s file) 0o664 ∨
      effect = .fsync file := by
  rcases List.mem_append.mp h with hmem | hmem
  · rw [openEffects] at hmem
    split at hmem
    · exact .inl (List.mem_singleton.mp hmem)
    · simp at hmem
  · exact .inr (by simpa using hmem)

/-- Writing the marker concerns the file only. -/
theorem location_marked {effect : Effect}
    (h : effect ∈ openEffects host s file ++ [.chmod file (openedMode host s file) 0o664, .fsync file]) :
    effect.location = some file := by
  rcases marked_cases h with rfl | rfl | rfl <;> rfl

theorem commitTask_published (hsource : EntryAt host s source src)
    (h : commitTask host source target true s.started = (.ok (), s')) (hrenamed : .rename src dst ∈ s'.log) :
    ∃ file t synced made, s.opened host (Publication.kCommitFileName :: source) = some file ∧
      Published host file src dst s.started t s' synced made := by
  obtain ⟨t₁, t₂, t₃, hwrite, hsync, hmake, hend⟩ := commitTask_ok h
  obtain ⟨file, hopened, hwritten, hmarked⟩ := writeFileSync_ok hwrite
  have hsrc : t₁.resolve host source = .ok src := resolve_extends hwritten.grows hsource.resolve
  obtain ⟨name, parent, dir, rfl, rfl, hdir, hisdir⟩ := hsource
  have hisdir₁ : t₁.tree.isDirectory (name :: dir) = true := hwritten.grows.isDirectory hisdir
  obtain ⟨synced, hkeeps, hsynced⟩ := fsyncDir_ok hsrc hisdir₁ hsync
  obtain ⟨reached, made, hreached, -, hmakes⟩ := makeDirs_ok hmake
  have hlog := (hmarked.trans (hkeeps.toChanges.trans hmakes.toChanges)).log
  -- only the move itself is recorded as one
  have hnot : .rename (name :: dir) dst ∉ t₃.log := by
    intro hmem
    rw [hlog] at hmem
    have hlocation : ∃ loc, (Effect.rename (name :: dir) dst).location = some loc := by
      rcases List.mem_append.mp hmem with hmem | hmem
      · simp [Files.started] at hmem
      · rcases List.mem_append.mp hmem with hmem | hmem
        · exact ⟨file, location_marked hmem⟩
        · rcases List.mem_append.mp hmem with hmem | hmem
          · obtain ⟨loc, hloc, -⟩ := hsynced.within _ hmem
            exact ⟨loc, hloc⟩
          · obtain ⟨loc, hloc, -⟩ := hmakes.above _ hmem
            exact ⟨loc, hloc⟩
    simp [Effect.location] at hlocation
  rcases hend with hrename | hsame
  · cases target with
    | nil => simp [rename] at hrename
    | cons name' parent' =>
        obtain ⟨dir₃, dir', hdir₃, hdir', hmoved, hdirectory⟩ := rename_ok hrename
        have hgrows : s.started.tree.Extends t₃.tree := by
          have hgrows' := hmakes.grows
          rw [hkeeps.tree] at hgrows'
          exact hwritten.grows.trans hgrows'
        obtain rfl : dir = dir₃ := by simpa [resolve_extends hgrows hdir] using hdir₃
        obtain rfl : reached = dir' := by simpa using hreached.symm.trans hdir'
        obtain ⟨hout, hnodes⟩ := hdirectory (hgrows.isDirectory hisdir)
        obtain rfl : dst = name' :: reached := by
          rw [hmoved.log] at hrenamed
          rcases List.mem_append.mp hrenamed with hmem | hmem
          · exact absurd hmem hnot
          · simpa using hmem
        refine ⟨file, t₁, synced, made, hopened, hwritten, hmarked, hsynced, hmakes.outside hout, hmakes.chmods,
          ?_, ?_, ?_⟩
        · intro loc mode hmkdir
          rw [← hkeeps.tree]
          exact hmakes.mkdirs loc mode hmkdir
        · simpa using hkeeps.toChanges.trans (hmakes.toChanges.trans hmoved)
        · intro l
          rw [hnodes l, ← hkeeps.tree, hmakes.node_below hout]
  · exact absurd (hsame ▸ hrenamed) hnot

/-! ### Complete -/

/-- Between two syncs the one of a directory is the later one. -/
theorem Settled.ordered {log : List Effect} {name : Bytes} {loc : Location Bytes} (h : Settled log loc)
    (hentry : Settled log (name :: loc)) :
    ∃ front rest, log = front ++ .fsync loc :: rest ∧ Settled front (name :: loc) ∧
      ∀ effect ∈ rest, ¬ effect.Within loc := by
  obtain ⟨front, rest, rfl, -, hrest⟩ := h
  obtain ⟨front', rest', hlog, hset, hrest'⟩ := hentry
  have hne : Effect.fsync loc ≠ .fsync (name :: loc) := by simp
  refine ⟨front, rest, rfl, ?_, hrest⟩
  rcases List.append_eq_append_iff.mp hlog with ⟨middle, rfl, hmiddle⟩ | ⟨middle, rfl, hmiddle⟩
  · cases middle with
    | nil => exact absurd (List.cons.inj hmiddle).1 hne
    | cons effect middle =>
        -- the entry would be synced after its directory
        obtain ⟨-, rfl⟩ := List.cons.inj hmiddle
        exact absurd ⟨_, rfl, List.suffix_cons _ _⟩ (hrest (.fsync (name :: loc)) (by simp))
  · cases middle with
    | nil => exact absurd (List.cons.inj hmiddle).1.symm hne
    | cons effect middle =>
        obtain ⟨rfl, rfl⟩ := List.cons.inj hmiddle
        exact ⟨front', middle, rfl, hset, fun effect heffect => hrest' effect (List.mem_append_left _ heffect)⟩

section

variable (h : Published host file src dst s t s' synced made)

include h

theorem Published.log : s'.log = s.log ++ (openEffects host s file ++
    [.chmod file (openedMode host s file) 0o664, .fsync file]) ++ (synced ++ made ++ [.rename src dst]) := by
  rw [h.moved.log, h.marked.log]

/-- The modes of an entry before the commit, but that of the file that was opened. -/
theorem Published.mode_of_ne {loc : Location Bytes} (hloc : loc ≠ file) : t.mode loc = s.mode loc := by
  rw [h.marked.mode]
  apply foldl_apply_of_ne
  intro effect heffect
  exact ⟨file, location_marked heffect, Ne.symm hloc⟩

theorem Published.mode (l : Location Bytes) : s'.mode (l ++ dst) = sharedAt t.tree t.mode (l ++ src) := by
  have hmade : ∀ effect ∈ made, ∃ loc, effect.location = some loc ∧ loc ≠ l ++ src := by
    intro effect heffect
    obtain ⟨loc, hloc, hout⟩ := h.outside effect heffect
    exact ⟨loc, hloc, fun heq => hout (heq ▸ List.suffix_append _ _)⟩
  rw [h.moved.mode, List.foldl_append, List.foldl_append]
  simp only [List.foldl_cons, List.foldl_nil, Effect.apply, List.suffix_append, if_true, Tree.below_append]
  rw [foldl_apply_of_ne hmade, h.settled.modes _ (List.suffix_append _ _)]

theorem Published.isDirectory (l : Location Bytes) :
    s'.tree.isDirectory (l ++ dst) = s.tree.isDirectory (l ++ src) := by
  rw [← h.written.isDirectory, Tree.isDirectory, Tree.isDirectory, h.nodes]

theorem Published.isFile (l : Location Bytes) : s'.tree.isFile (l ++ dst) = t.tree.isFile (l ++ src) := by
  rw [Tree.isFile, Tree.isFile, h.nodes]

theorem Published.settled_at {l : Location Bytes}
    (hl : s'.tree.isDirectory (l ++ dst) = true ∨ s'.tree.isFile (l ++ dst) = true) :
    Settled s'.log (l ++ src) := by
  rw [h.isDirectory, ← h.written.isDirectory, h.isFile] at hl
  rw [h.log, List.append_assoc synced, ← List.append_assoc _ synced]
  apply (h.settled.settled _ (List.suffix_append _ _) hl).extend
  intro effect heffect hwithin
  obtain ⟨loc, hloc, hbelow⟩ := hwithin
  rcases List.mem_append.mp heffect with hmem | hmem
  · obtain ⟨loc', hloc', hout⟩ := h.outside effect hmem
    obtain rfl : loc = loc' := Option.some.inj (hloc.symm.trans hloc')
    exact hout ((List.suffix_append _ _).trans hbelow)
  · obtain rfl := List.mem_singleton.mp hmem
    simp [Effect.location] at hloc

/-! ### Contained -/

/-- What a commit recorded. -/
theorem Published.cases (hlog : s.log = []) {effect : Effect} (heffect : effect ∈ s'.log) :
    (effect = .create file (0o666 &&& ~~~host.umask) ∨ effect = .chmod file (openedMode host s file) 0o664 ∨
      effect = .fsync file) ∨ (∃ loc, effect.location = some loc ∧ src <:+ loc) ∨ effect ∈ made ∨
      effect = .rename src dst := by
  rw [h.log, hlog, List.nil_append] at heffect
  rcases List.mem_append.mp heffect with hmem | hmem
  · exact .inl (marked_cases hmem)
  · rcases List.mem_append.mp hmem with hmem | hmem
    · rcases List.mem_append.mp hmem with hmem | hmem
      · exact .inr (.inl (h.settled.within _ hmem))
      · exact .inr (.inr (.inl hmem))
    · exact .inr (.inr (.inr (List.mem_singleton.mp hmem)))

/-- Where a mode was set by a commit. -/
theorem Published.chmod_cases (hlog : s.log = []) {loc : Location Bytes} {before after : Mode}
    (hchmod : .chmod loc before after ∈ s'.log) :
    loc = file ∧ before = openedMode host s file ∧ after = 0o664 ∨ src <:+ loc ∨
      loc = dst.tail ∧ ∃ mode, .mkdir loc mode ∈ made := by
  rcases h.cases hlog hchmod with hmark | ⟨loc', hloc, hin⟩ | hmem | hmove
  · exact .inl (by simpa using hmark)
  · obtain rfl : loc = loc' := Option.some.inj hloc
    exact .inr (.inl hin)
  · exact .inr (.inr (h.chmods loc before after hmem))
  · simp at hmove

theorem Published.contained_iff (hlog : s.log = []) :
    (∀ loc before after, .chmod loc before after ∈ s'.log →
      src <:+ loc ∨ after = before ∨ loc = dst.tail ∧ ∃ mode, .mkdir loc mode ∈ s'.log) ↔
    (src <:+ file ∨ openedMode host s file = 0o664) := by
  constructor
  · intro hcontained
    have hchmod : .chmod file (openedMode host s file) 0o664 ∈ s'.log := by simp [h.log]
    rcases hcontained _ _ _ hchmod with hin | hmode | ⟨-, mode, hmkdir⟩
    · exact .inl hin
    · exact .inr hmode.symm
    · rcases h.cases hlog hmkdir with hmark | ⟨loc, hloc, hin⟩ | hmem | hmove
      · simp at hmark
      · obtain rfl : file = loc := Option.some.inj hloc
        exact .inl hin
      · -- the file was there when the directories were created
        exact absurd (h.mkdirs file mode hmem) (node_ne_none_of_isFile h.written.isFile)
      · simp at hmove
  · intro hmarker loc before after hchmod
    rcases h.chmod_cases hlog hchmod with ⟨rfl, rfl, rfl⟩ | hin | ⟨htail, mode, hmkdir⟩
    · rcases hmarker with hin | hmode
      · exact .inl hin
      · exact .inr (.inl hmode.symm)
    · exact .inl hin
    · exact .inr (.inr ⟨htail, mode, by simp [h.log, hmkdir]⟩)

/-- All of it but the containment holds of every commit that moved its source. -/
theorem Published.entryShared_iff (hlog : s.log = []) :
    EntryShared s s' src dst ↔ src <:+ file ∨ openedMode host s file = 0o664 := by
  refine ⟨fun hshared => (h.contained_iff hlog).mp hshared.contained, fun hmarker => ?_⟩
  refine ⟨h.isDirectory, ?_, ?_, ?_, fun l hl => h.settled_at hl, ?_, (h.contained_iff hlog).mpr hmarker⟩
  · intro l hl
    rw [h.isFile]
    exact h.written.grows.isFile hl
  · intro l hl
    rw [h.isDirectory, ← h.written.isDirectory] at hl
    have hne : l ++ src ≠ file := by
      intro heq
      rw [heq, isDirectory_eq_false_of_isFile h.written.isFile] at hl
      simp at hl
    rw [h.mode, sharedAt, if_pos hl, sharedMode_directory, h.mode_of_ne hne]
  · intro l hl
    rw [h.isFile] at hl
    rw [h.mode, sharedAt, isDirectory_eq_false_of_isFile hl, if_neg (by simp), if_pos hl, sharedMode_file]
  · intro name l hl
    have hparent : s'.tree.isDirectory (l ++ dst) = true := s'.tree.isDirectory_of_entry (node_ne_none_of_entry hl)
    exact (h.settled_at (.inl hparent)).ordered (h.settled_at hl)

end

/-- A marker that is no link is in the entry. -/
theorem markerContained_of_not_link (hsource : EntryAt host s source src)
    (hlink : ∀ target, s.tree.node (Publication.kCommitFileName :: src) ≠ some (.link target)) :
    MarkerContained host s source src := by
  intro file hfile
  obtain ⟨left, hleft⟩ := resolve_ok.mp hsource.resolve
  have hwalk : s.tree.walk host.links host.base (source.reverse.map .entry) = some (src, left) := hleft
  rw [Files.opened, List.reverse_cons, List.map_append, Tree.opened_append _ (by simp), hwalk,
    Option.bind_some] at hfile
  rw [Tree.eq_of_opened_entry hlink hfile]
  exact .inl (List.suffix_cons _ _)

end

/-! ### Both tasks -/

section

variable {host host₀ : Host} {s₀ s₁ s₂ s₃ : Files} {root source target : List Bytes} {uuid entryName : Bytes}
  {src dst : Location Bytes} {shared : Bool} {result : Except Failure Unit}

/-- The commit returned, and it was its source that it moved. -/
def Moved (result : Except Failure Unit) (s : Files) (src dst : Location Bytes) : Prop :=
  result = .ok () ∧ .rename src dst ∈ s.log

/-- Shared permissions are complete and contained. The first two states are those around the set-up
of an entry, and the other two those around its commit. -/
def PermissionsShared (host₀ : Host) (root : List Bytes) (uuid : Bytes) (s₀ s₁ s₂ s₃ : Files)
    (src : Location Bytes) (result : Except Failure Unit) : Prop :=
  (RootShared host₀ s₀ root →
    OnlyNew host₀ s₁ [(temporaryPath root uuid).tail, temporaryPath root uuid] ∧
    ∀ dst, Moved result s₃ src dst → EntryShared s₂.started s₃ src dst) ∧
  (¬ RootShared host₀ s₀ root → ∀ effect ∈ s₁.log ++ s₃.log, ¬ IsChmod effect)

theorem entryShared_iff (hsource : EntryAt host s₂ source src)
    (hcommit : commitTask host source target true s₂.started = (result, s₃)) (hmoved : Moved result s₃ src dst) :
    EntryShared s₂.started s₃ src dst ↔ MarkerContained host s₂ source src := by
  obtain ⟨rfl, hrenamed⟩ := hmoved
  obtain ⟨file, t, synced, made, hopened, hpublished⟩ := commitTask_published hsource hcommit hrenamed
  rw [hpublished.entryShared_iff rfl]
  constructor
  · intro hmarker file' hopened'
    obtain rfl : file = file' := by simpa [hopened] using hopened'
    exact hmarker
  · intro hmarker
    exact hmarker file hopened

/-- The shared permissions of an entry are complete and contained unless the marker is a link out of
the entry to a file with another mode. -/
theorem permissionsShared_iff (hsetup : setupTask host₀ root uuid s₀.started = (.ok shared, s₁))
    (hsource : EntryAt host s₂ (temporaryPath root uuid) src)
    (hcommit :
      commitTask host (temporaryPath root uuid) (cachePath root entryName) shared s₂.started = (result, s₃)) :
    PermissionsShared host₀ root uuid s₀ s₁ s₂ s₃ src result ↔
      (RootShared host₀ s₀ root → ∀ dst, Moved result s₃ src dst →
        MarkerContained host s₂ (temporaryPath root uuid) src) := by
  have hshared := setupTask_shared hsetup
  rw [show RootShared host₀ s₀.started root = RootShared host₀ s₀ root from rfl] at hshared
  by_cases hroot : RootShared host₀ s₀ root
  · obtain rfl := hshared.mpr hroot
    constructor
    · intro hcomplete _ dst hmoved
      exact (entryShared_iff hsource hcommit hmoved).mp ((hcomplete.1 hroot).2 dst hmoved)
    · intro hmarker
      refine ⟨fun _ => ⟨setupTask_onlyNew hsetup, fun dst hmoved => ?_⟩, fun hnot => absurd hroot hnot⟩
      exact (entryShared_iff hsource hcommit hmoved).mpr (hmarker hroot dst hmoved)
  · obtain rfl : shared = false := by
      rw [← Bool.not_eq_true, hshared]
      exact hroot
    have hset : Quiet s₀.started (setupTask host₀ root uuid s₀.started).2 := quiet_setupTask hroot
    have hcommitted : Quiet s₂.started
        (commitTask host (temporaryPath root uuid) (cachePath root entryName) false s₂.started).2 :=
      silent_commitTask _
    rw [hsetup] at hset
    rw [hcommit] at hcommitted
    have hquiet : ∀ effect ∈ s₁.log ++ s₃.log, ¬ IsChmod effect := by
      intro effect heffect
      rcases List.mem_append.mp heffect with hmem | hmem
      · exact hset.not_isChmod effect hmem
      · exact hcommitted.not_isChmod effect hmem
    exact ⟨fun _ hroot' => absurd hroot' hroot, fun _ => ⟨fun hroot' => absurd hroot' hroot, fun _ => hquiet⟩⟩

end

/-! ### Entries with and without a link -/

/-- A cache root, and a private file that is not in it. -/
def cacheRoot : Tree Bytes Bytes :=
  let key := Tree.root.create (bytes "key") [] (.file []) Tree.isDirectory_root rfl
  let root := key.create (bytes "r") [] .directory rfl rfl
  let tmp := root.create (bytes "tmp") [bytes "r"] .directory rfl rfl
  tmp.create (bytes "cache") [bytes "r"] .directory rfl rfl

/-- The root with an entry that holds one file. -/
def builtEntry : Tree Bytes Bytes :=
  let entry := cacheRoot.create (bytes "u") [bytes "tmp", bytes "r"] .directory rfl rfl
  entry.create (bytes "a.so") [bytes "u", bytes "tmp", bytes "r"] (.file []) rfl rfl

/-- The same with a link to the private file in the place of the marker. -/
def linkedEntry : Tree Bytes Bytes :=
  builtEntry.create Publication.kCommitFileName [bytes "u", bytes "tmp", bytes "r"]
    (.link ⟨true, [.entry (bytes "key")]⟩) rfl rfl

/-- The root has the SGID bit, and only its owner may read the private file. -/
def withModes (tree : Tree Bytes Bytes) : Files where
  tree := tree
  mode loc := if loc = [bytes "key"] then 0o600 else if loc = [bytes "r"] then 0o2775 else 0o755

/-- A host without faults. -/
def plainHost : Host := ⟨40, [], 0o022, fun _ => none⟩

/-- The location of the entry. -/
def entryLoc : Location Bytes := [bytes "u", bytes "tmp", bytes "r"]

/-- The location where it is published. -/
def cacheLoc : Location Bytes := [bytes "e", bytes "cache", bytes "r"]

theorem rootShared_cacheRoot : RootShared plainHost (withModes cacheRoot) [bytes "r"] :=
  ⟨[bytes "r"], rfl, by decide, by decide⟩

theorem setupTask_cacheRoot :
    ∃ s₁, setupTask plainHost [bytes "r"] (bytes "u") (withModes cacheRoot).started = (.ok true, s₁) := by
  have hdir : (withModes cacheRoot).started.resolve plainHost (temporaryPath [bytes "r"] (bytes "u")).tail =
      .ok [bytes "tmp", bytes "r"] := rfl
  obtain ⟨shared, s₁, hsetup⟩ := returns_setupTask (fun _ => rfl) hdir rfl rfl
  rw [(setupTask_shared hsetup).mpr rootShared_cacheRoot] at hsetup
  exact ⟨s₁, hsetup⟩

theorem entryAt_builtEntry :
    EntryAt plainHost (withModes builtEntry) (temporaryPath [bytes "r"] (bytes "u")) entryLoc :=
  ⟨bytes "u", _, [bytes "tmp", bytes "r"], rfl, rfl, rfl, rfl⟩

theorem entryAt_linkedEntry :
    EntryAt plainHost (withModes linkedEntry) (temporaryPath [bytes "r"] (bytes "u")) entryLoc :=
  ⟨bytes "u", _, [bytes "tmp", bytes "r"], rfl, rfl, rfl, rfl⟩

theorem commitTask_cacheRoot {tree : Tree Bytes Bytes} {file : Location Bytes}
    (hsource : EntryAt plainHost (withModes tree) (temporaryPath [bytes "r"] (bytes "u")) entryLoc)
    (hopened : (withModes tree).opened plainHost
      (Publication.kCommitFileName :: temporaryPath [bytes "r"] (bytes "u")) = some file)
    (hdir : (withModes tree).resolve plainHost [bytes "cache", bytes "r"] = .ok [bytes "cache", bytes "r"])
    (hisdir : tree.isDirectory [bytes "cache", bytes "r"] = true) (hnew : tree.node cacheLoc = none)
    (hfile : file ≠ cacheLoc) :
    ∃ s₃, commitTask plainHost (temporaryPath [bytes "r"] (bytes "u")) (cachePath [bytes "r"] (bytes "e")) true
        (withModes tree).started = (.ok (), s₃) ∧ Moved (.ok ()) s₃ entryLoc cacheLoc := by
  have hsource' : EntryAt plainHost (withModes tree).started (temporaryPath [bytes "r"] (bytes "u")) entryLoc := hsource
  obtain ⟨s₃, hcommit, hrenamed⟩ :=
    commitTask_returns (fun _ => rfl) hsource' hopened hdir hisdir hnew hfile (by decide)
  exact ⟨s₃, hcommit, rfl, hrenamed⟩

/-- The entry without a link is published with shared permissions. -/
theorem permissionsShared_builtEntry :
    ∃ s₁ s₃, Moved (.ok ()) s₃ entryLoc cacheLoc ∧
      PermissionsShared plainHost [bytes "r"] (bytes "u") (withModes cacheRoot) s₁ (withModes builtEntry) s₃
        entryLoc (.ok ()) := by
  obtain ⟨s₁, hsetup⟩ := setupTask_cacheRoot
  obtain ⟨s₃, hcommit, hmoved⟩ := commitTask_cacheRoot entryAt_builtEntry rfl rfl rfl rfl (by decide)
  refine ⟨s₁, s₃, hmoved, ?_⟩
  apply (permissionsShared_iff hsetup entryAt_builtEntry hcommit).mpr
  intro _ _ _
  apply markerContained_of_not_link entryAt_builtEntry
  intro target
  have hmarker : (withModes builtEntry).tree.node (Publication.kCommitFileName :: entryLoc) = none := rfl
  simp [hmarker]

/-- The entry with the link is published too, and the private file gets another mode. -/
theorem permissionsShared_linkedEntry :
    ∃ s₁ s₃, setupTask plainHost [bytes "r"] (bytes "u") (withModes cacheRoot).started = (.ok true, s₁) ∧
      EntryAt plainHost (withModes linkedEntry) (temporaryPath [bytes "r"] (bytes "u")) entryLoc ∧
      commitTask plainHost (temporaryPath [bytes "r"] (bytes "u")) (cachePath [bytes "r"] (bytes "e")) true
        (withModes linkedEntry).started = (.ok (), s₃) ∧
      ¬ PermissionsShared plainHost [bytes "r"] (bytes "u") (withModes cacheRoot) s₁ (withModes linkedEntry) s₃
        entryLoc (.ok ()) := by
  obtain ⟨s₁, hsetup⟩ := setupTask_cacheRoot
  obtain ⟨s₃, hcommit, hmoved⟩ := commitTask_cacheRoot entryAt_linkedEntry rfl rfl rfl rfl (by decide)
  refine ⟨s₁, s₃, hsetup, entryAt_linkedEntry, hcommit, ?_⟩
  intro hshared
  have hentry := (hshared.1 rootShared_cacheRoot).2 cacheLoc hmoved
  have hcontained := (entryShared_iff entryAt_linkedEntry hcommit hmoved).mp hentry
  rcases hcontained [bytes "key"] rfl with hin | hmode
  · exact absurd hin (by decide)
  · exact absurd hmode (by decide)

end DeepJit.Permissions
