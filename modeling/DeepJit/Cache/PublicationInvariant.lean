import DeepJit.Cache.Publication

/-!
# What every step of a publication keeps

While its directory can still be renamed, a writer changes nothing but the marker once `commit` was
called, and a task reaches the rename only after everything was synced. After the rename nothing
resolves to the directory through its temporary path any more.
-/

namespace DeepJit.Publication

section

variable {entryName : Nat → Bytes} {s s' : State} {n : Bytes} {w j : Nat}

/-! ### `fsync_dir` -/

theorem mem_fsyncEntries (entries : Entries Bytes Bytes) (inode : Nat) :
    inode ∈ fsyncEntries entries ↔ inode ∈ entries.inodes := by
  induction entries with
  | nil => simp [fsyncEntries]
  | file name i content rest ih => simp [fsyncEntries, ih]
  | dir name i children rest ihc ihr => simp [fsyncEntries, ihc, ihr]

/-- `fsync_dir` syncs every file and directory of the tree. -/
theorem mem_fsyncDir (d : Directory Bytes Bytes) (inode : Nat) :
    inode ∈ fsyncDir d ↔ inode ∈ d.inode :: d.entries.inodes := by
  rw [fsyncDir, List.mem_append, mem_fsyncEntries, List.mem_singleton, List.mem_cons]
  exact or_comm

/-! ### The invariant -/

/-- Another writer holds the entry, which is forever. -/
def Taken (cache : Bytes → Option Nat) (n : Bytes) (w : Nat) : Prop := ∃ v, cache n = some v ∧ v ≠ w

/-- The directory is what `commit` found, with the marker. -/
def Writer.Complete (x : Writer) : Prop := ∃ d, x.built = some d ∧ x.volume.directory = withMarker d

/-- What a task relies on while the entry is not taken. -/
def TaskInv (cache : Bytes → Option Nat) (n : Bytes) (w : Nat) (x : Writer) : TaskPc → Prop
  | .idle | .marking | .failed => True
  | .marked => Taken cache n w ∨ x.Complete
  | .syncing rest => Taken cache n w ∨ (x.Complete ∧
      ∀ inode ∈ x.volume.directory.inode :: x.volume.directory.entries.inodes, inode ∈ x.volume.synced ∨ inode ∈ rest)
  | .moving => Taken cache n w ∨ (x.Complete ∧ x.volume.Synced)
  | .checking | .removing => Taken cache n w
  | .done => cache n ≠ none

structure WriterInv (cache : Bytes → Option Nat) (n : Bytes) (w : Nat) (x : Writer) : Prop where
  fresh : x.caller = .idle ∨ x.caller = .looked ∨ x.caller = .gaveUp →
    x.temporary = false ∧ x.built = none
  unsealed : x.built = none → ∀ j, x.tasks j = .idle
  intact : ∀ d, x.built = some d →
    x.cleanup ≠ .idle ∨ Taken cache n w ∨ x.volume.directory = d ∨ x.Complete
  flight : x.abandoned = false → ∀ j, (x.tasks j).InFlight → x.caller = .committing j
  cleanup : x.cleanup ≠ .idle → x.caller = .ended ∧ ∀ j, ¬(x.tasks j).InFlight
  task : ∀ j, TaskInv cache n w x (x.tasks j)
  returned : x.caller = .hit ∨ x.caller = .committed → cache n ≠ none

/-- A published directory. Its temporary path is gone, and with it every way to change it. -/
structure Published (x : Writer) : Prop where
  moved : x.temporary = false
  complete : x.Complete
  snapshot : x.published = some x.volume.directory
  synced : x.volume.Synced

structure Inv (entryName : Nat → Bytes) (s : State) : Prop where
  writer : ∀ w, WriterInv s.cache (entryName w) w (s.writers w)
  published : ∀ n w, s.cache n = some w → n = entryName w ∧ Published (s.writers w)
  durable : ∀ n w, s.durableCache n = some w → s.cache n = some w

theorem inv_init (h : (system entryName).init s) : Inv entryName s := by
  obtain ⟨hwriters, hcache, hdurable⟩ := h
  constructor
  · intro w
    obtain ⟨v, hv⟩ := hwriters w
    rw [hv]
    constructor <;> simp [TaskPc.InFlight, TaskInv]
  · intro n w hw
    simp [hcache] at hw
  · intro n w hw
    simp [hdurable] at hw

theorem contains_withMarker (d : Directory Bytes Bytes) : (withMarker d).Contains kCommitFileName :=
  d.contains_writeFile

theorem Writer.Complete.contains {x : Writer} (h : x.Complete) :
    x.volume.directory.Contains kCommitFileName := by
  obtain ⟨d, -, hd⟩ := h
  rw [hd]
  exact contains_withMarker d

/-- A published directory is not empty. -/
theorem Inv.not_free (h : Inv entryName s) (hcache : s.cache n ≠ none) : ¬s.Free n := by
  obtain ⟨v, hv⟩ := Option.ne_none_iff_exists'.mp hcache
  intro hfree
  obtain ⟨inode, hinode⟩ := (h.published n v hv).2.complete.contains
  rw [hfree v hv] at hinode
  simp [Entries.listing] at hinode

theorem Inv.marked_iff (h : Inv entryName s) : s.Marked n ↔ s.cache n ≠ none := by
  constructor
  · rintro ⟨v, hv, -⟩
    simp [hv]
  · intro hcache
    obtain ⟨v, hv⟩ := Option.ne_none_iff_exists'.mp hcache
    exact ⟨v, hv, (h.published n v hv).2.complete.contains⟩

/-! ### Steps of one writer -/

/-- The published writers stay as they are. -/
def Stable (s s' : State) : Prop :=
  ∀ n w, s.cache n = some w →
    s'.cache n = some w ∧ (s'.writers w).published = (s.writers w).published

theorem Inv.set (h : Inv entryName s) {x : Writer} (hx : WriterInv s.cache (entryName w) w x)
    (hpublished : Published (s.writers w) → Published x) : Inv entryName (s.set w x) := by
  constructor
  · intro v
    by_cases hv : v = w
    · subst hv
      simpa [State.set] using hx
    · simpa [State.set, hv] using h.writer v
  · intro n v hn
    obtain ⟨hname, hv⟩ := h.published n v hn
    refine ⟨hname, ?_⟩
    by_cases hvw : v = w
    · subst hvw
      simpa [State.set] using hpublished hv
    · simpa [State.set, hvw] using hv
  · exact h.durable

theorem stable_set {x : Writer} (hpublished : x.published = (s.writers w).published) :
    Stable s (s.set w x) := by
  intro n v hn
  refine ⟨hn, ?_⟩
  by_cases hv : v = w
  · subst hv
    simpa [State.set] using hpublished
  · simp [State.set, hv]

theorem not_published {x : Writer} (htemporary : x.temporary = true) : ¬Published x := by
  intro hpublished
  simp [hpublished.moved] at htemporary

/-- What is published was built. -/
theorem not_published_of_unbuilt {x : Writer} (hbuilt : x.built = none) : ¬Published x := by
  intro hpublished
  obtain ⟨d, hd, -⟩ := hpublished.complete
  simp [hbuilt] at hd

/-- Until `commit` is called there are no tasks. -/
theorem WriterInv.no_flight {cache : Bytes → Option Nat} {x : Writer} (h : WriterInv cache n w x)
    (hbuilt : x.built = none) (i : Nat) : ¬(x.tasks i).InFlight := by
  simp [h.unsealed hbuilt i, TaskPc.InFlight]

theorem WriterInv.not_cleaning {cache : Bytes → Option Nat} {x : Writer} (h : WriterInv cache n w x)
    (hpc : x.caller ≠ .ended) : x.cleanup = .idle := by
  by_contra hclean
  exact hpc (h.cleanup hclean).1

/-- The only task of a caller that abandoned none has ended. -/
theorem WriterInv.no_flight_of_ended {cache : Bytes → Option Nat} {x : Writer}
    (h : WriterInv cache n w x) (hpc : x.caller = .committing j) (htask : ¬(x.tasks j).InFlight)
    (habandoned : x.abandoned = false) (i : Nat) :
    ¬(x.tasks i).InFlight := by
  intro hi
  have hcommitting := h.flight habandoned i hi
  have heq : j = i := by simpa [hpc] using hcommitting
  exact htask (heq ▸ hi)

/-- A task of the writer moves on without a change of the directory. -/
theorem WriterInv.setTask {cache : Bytes → Option Nat} {x : Writer} (h : WriterInv cache n w x)
    {pc : TaskPc} (hbefore : (x.tasks j).InFlight) (hpc : TaskInv cache n w x pc) :
    WriterInv cache n w (x.setTask j pc) := by
  have hbuilt : x.built ≠ none := by
    intro hnone
    exact h.no_flight hnone j hbefore
  obtain ⟨hfresh, hunsealed, hintact, hflight, hcleanup, htask, hreturned⟩ := h
  have hinflight (i : Nat) (hi : ((x.setTask j pc).tasks i).InFlight) : (x.tasks i).InFlight := by
    by_cases hij : i = j
    · exact hij ▸ hbefore
    · simpa [Writer.setTask, hij] using hi
  refine ⟨hfresh, fun hnone => absurd hnone hbuilt, hintact, ?_, ?_, ?_, hreturned⟩
  · exact fun habandoned i hi => hflight habandoned i (hinflight i hi)
  · intro hclean
    exact absurd hbefore ((hcleanup hclean).2 j)
  · intro i
    by_cases hij : i = j
    · subst hij
      simp only [Writer.setTask, Function.update_self]
      cases pc <;> exact hpc
    · have hi := htask i
      simp only [Writer.setTask, Function.update_of_ne hij]
      cases hpc' : x.tasks i <;> rw [hpc'] at hi <;> exact hi

/-- The directory of a writer that is not published, and has no use for it, changes. -/
theorem WriterInv.setVolume {cache : Bytes → Option Nat} {x : Writer} (h : WriterInv cache n w x)
    {v : Volume Bytes Bytes} (huseless : x.built = none ∨ x.cleanup ≠ .idle ∨ Taken cache n w) :
    WriterInv cache n w { x with volume := v } := by
  refine ⟨h.fresh, h.unsealed, ?_, h.flight, h.cleanup, ?_, h.returned⟩
  · intro d hd
    rcases huseless with hnone | hclean | htaken
    · have hd' : x.built = some d := hd
      simp [hnone] at hd'
    · exact .inl hclean
    · exact .inr (.inl htaken)
  · intro i
    have hi := h.task i
    show TaskInv cache n w _ (x.tasks i)
    have hidle : x.built = none ∨ x.cleanup ≠ .idle → ¬(x.tasks i).InFlight := by
      intro hend
      rcases hend with hnone | hclean
      · exact h.no_flight hnone i
      · exact (h.cleanup hclean).2 i
    cases hpc : x.tasks i with rw [hpc] at hi hidle
    | idle | marking | failed => exact trivial
    | marked | syncing rest | moving =>
        rcases huseless with hnone | hclean | htaken
        · exact absurd trivial (hidle (.inl hnone))
        · exact absurd trivial (hidle (.inr hclean))
        · exact .inl htaken
    | checking | removing | done => exact hi

theorem TaskInv.congr {cache : Bytes → Option Nat} {x x' : Writer} {pc : TaskPc}
    (h : TaskInv cache n w x pc)
    (hbuilt : x'.built = x.built) (hdirectory : x'.volume.directory = x.volume.directory)
    (hsynced : ∀ inode ∈ x.volume.synced, inode ∈ x'.volume.synced) : TaskInv cache n w x' pc := by
  have hcomplete (hc : x.Complete) : x'.Complete := by
    obtain ⟨d, hd, hdir⟩ := hc
    exact ⟨d, hbuilt.trans hd, hdirectory.trans hdir⟩
  cases pc with
  | idle | marking | failed => exact trivial
  | marked => exact h.imp_right hcomplete
  | syncing rest =>
      refine h.imp_right fun hc => ⟨hcomplete hc.1, ?_⟩
      rw [hdirectory]
      exact fun inode hinode => (hc.2 inode hinode).imp_left (hsynced inode)
  | moving =>
      refine h.imp_right fun hc => ⟨hcomplete hc.1, ?_⟩
      unfold Volume.Synced
      rw [hdirectory]
      exact fun inode hinode => hsynced inode (hc.2 inode hinode)
  | checking | removing | done => exact h

/-- The device holds more of the directory, or something else of what was not synced. -/
theorem WriterInv.resync {cache : Bytes → Option Nat} {x : Writer} (h : WriterInv cache n w x)
    {v : Volume Bytes Bytes} (hdirectory : v.directory = x.volume.directory)
    (hsynced : ∀ inode ∈ x.volume.synced, inode ∈ v.synced) :
    WriterInv cache n w { x with volume := v } := by
  refine ⟨h.fresh, h.unsealed, ?_, h.flight, h.cleanup,
    fun i => (h.task i).congr rfl hdirectory hsynced, h.returned⟩
  intro d hd
  rcases h.intact d hd with hclean | htaken | hsame | ⟨d', hd', hcomplete⟩
  · exact .inl hclean
  · exact .inr (.inl htaken)
  · exact .inr (.inr (.inl (hdirectory.trans hsame)))
  · exact .inr (.inr (.inr ⟨d', hd', hdirectory.trans hcomplete⟩))

/-- The caller or the destructor moves on without a change of the tasks and of the directory. -/
theorem WriterInv.move {cache : Bytes → Option Nat} {x : Writer} (h : WriterInv cache n w x)
    {caller : CallerPc} {abandoned : Bool} {cleanup : CleanupPc} {killed temporary : Bool}
    {published : Option (Directory Bytes Bytes)}
    (hfresh : caller = .idle ∨ caller = .looked ∨ caller = .gaveUp →
      temporary = false ∧ x.built = none)
    (hsticky : x.cleanup ≠ .idle → cleanup ≠ .idle)
    (hflight : abandoned = false → ∀ j, (x.tasks j).InFlight → caller = .committing j)
    (hcleanup : cleanup ≠ .idle → caller = .ended ∧ ∀ j, ¬(x.tasks j).InFlight)
    (hreturned : caller = .hit ∨ caller = .committed → cache n ≠ none) :
    WriterInv cache n w { x with
      caller := caller, abandoned := abandoned, cleanup := cleanup, killed := killed
      temporary := temporary, published := published } := by
  refine ⟨hfresh, h.unsealed, ?_, hflight, hcleanup, ?_, hreturned⟩
  · intro d hd
    exact (h.intact d hd).imp_left hsticky
  · intro i
    exact (h.task i).congr rfl rfl fun _ => id

/-- A move of a writer that has built nothing yet and has not ended. -/
theorem WriterInv.moveUnbuilt {cache : Bytes → Option Nat} {x : Writer} (h : WriterInv cache n w x)
    {caller : CallerPc} {temporary : Bool} (hbuilt : x.built = none) (hrunning : x.caller ≠ .ended)
    (hfresh : caller = .idle ∨ caller = .looked ∨ caller = .gaveUp → temporary = false)
    (hreturned : caller = .hit ∨ caller = .committed → cache n ≠ none) :
    WriterInv cache n w { x with caller := caller, temporary := temporary } := by
  refine h.move (fun hearly => ⟨hfresh hearly, hbuilt⟩) id ?_ ?_ hreturned
  · exact fun _ i hi => absurd hi (h.no_flight hbuilt i)
  · exact fun hclean => absurd (h.not_cleaning hrunning) hclean

theorem WriterInv.commit {cache : Bytes → Option Nat} {x : Writer} (h : WriterInv cache n w x)
    (hpc : x.caller = .building) (htask : x.tasks j = .idle) :
    WriterInv cache n w { x.setTask j .marking with
      caller := .committing j, built := some (x.built.getD x.volume.directory) } := by
  have hclean := h.not_cleaning (by simp [hpc])
  obtain ⟨hfresh, hunsealed, hintact, hflight, hcleanup, htasks, hreturned⟩ := h
  constructor
  · simp
  · simp
  · intro d hd
    cases hbuilt : x.built with
    | none =>
        obtain rfl : x.volume.directory = d := by simpa [hbuilt] using hd
        exact .inr (.inr (.inl rfl))
    | some d' =>
        obtain rfl : d' = d := by simpa [hbuilt] using hd
        rcases hintact d' hbuilt with hrunning | htaken | hsame | ⟨d'', hd'', hcomplete⟩
        · exact absurd hclean hrunning
        · exact .inr (.inl htaken)
        · exact .inr (.inr (.inl hsame))
        · exact .inr (.inr (.inr ⟨d'', by simpa [hbuilt] using hd'', hcomplete⟩))
  · intro habandoned i hi
    by_cases hij : i = j
    · rw [hij]
    · have hcommitting := hflight habandoned i (by simpa [Writer.setTask, hij] using hi)
      simp [hpc] at hcommitting
  · exact fun hrunning => absurd hclean hrunning
  · intro i
    by_cases hij : i = j
    · subst hij
      simp [Writer.setTask, TaskInv]
    · have hi := htasks i
      simp only [Writer.setTask, Function.update_of_ne hij]
      cases hbuilt : x.built with
      | none =>
          rw [hunsealed hbuilt i]
          exact trivial
      | some d => exact hi.congr (by simp [hbuilt]) rfl fun _ => id
  · simp

/-- The marker is written. If it was there before, nothing changes. -/
theorem WriterInv.mark {cache : Bytes → Option Nat} {x : Writer} (h : WriterInv cache n w x)
    (hpc : x.tasks j = .marking) :
    WriterInv cache n w { x.setTask j .marked with volume := x.volume.modify (withMarker x.volume.directory) } := by
  have hflying : (x.tasks j).InFlight := by simp [hpc, TaskPc.InFlight]
  by_cases hcomplete : x.Complete
  · have hsame : withMarker x.volume.directory = x.volume.directory := by
      obtain ⟨d, -, hd⟩ := hcomplete
      rw [hd]
      exact d.writeFile_writeFile
    rw [hsame, Volume.modify_self]
    exact h.setTask hflying (.inr hcomplete)
  · by_cases htaken : Taken cache n w
    · have hchanged := h.setVolume (v := x.volume.modify (withMarker x.volume.directory)) (.inr (.inr htaken))
      exact hchanged.setTask hflying (.inl htaken)
    · obtain ⟨hfresh, hunsealed, hintact, hflight, hcleanup, htask, hreturned⟩ := h
      have hclean : x.cleanup = .idle := by
        by_contra hclean
        exact (hcleanup hclean).2 j hflying
      have hbuilt : x.built = some x.volume.directory := by
        cases hb : x.built with
        | none => simp [hunsealed hb j] at hpc
        | some d =>
            rcases hintact d hb with hrunning | htaken' | hsame | hcomplete'
            · exact absurd hclean hrunning
            · exact absurd htaken' htaken
            · rw [hsame]
            · exact absurd hcomplete' hcomplete
      have hdone : ({ x.setTask j .marked with volume := x.volume.modify (withMarker x.volume.directory) } : Writer).Complete :=
        ⟨x.volume.directory, hbuilt, Volume.modify_directory _ _⟩
      refine ⟨hfresh, ?_, fun _ _ => .inr (.inr (.inr hdone)), ?_, ?_, ?_, hreturned⟩
      · intro hnone
        have hnone' : x.built = none := hnone
        simp [hbuilt] at hnone'
      · intro habandoned i hi
        by_cases hij : i = j
        · exact hflight habandoned i (hij ▸ hflying)
        · exact hflight habandoned i (by simpa [Writer.setTask, hij] using hi)
      · exact fun hrunning => absurd hclean hrunning
      · intro i
        by_cases hij : i = j
        · subst hij
          simp only [Writer.setTask, Function.update_self]
          exact .inr hdone
        · have hi := htask i
          simp only [Writer.setTask, Function.update_of_ne hij]
          cases hpc' : x.tasks i with rw [hpc'] at hi
          | idle | marking | failed => exact trivial
          | marked => exact absurd hi (not_or.mpr ⟨htaken, hcomplete⟩)
          | syncing rest => exact absurd (hi.imp_right And.left) (not_or.mpr ⟨htaken, hcomplete⟩)
          | moving => exact absurd (hi.imp_right And.left) (not_or.mpr ⟨htaken, hcomplete⟩)
          | checking | removing => exact absurd hi htaken
          | done => exact hi

/-- More entries are held. -/
theorem WriterInv.extend {cache cache' : Bytes → Option Nat} {x : Writer}
    (h : WriterInv cache n w x)
    (hcache : ∀ v, cache n = some v → cache' n = some v) : WriterInv cache' n w x := by
  have htaken (ht : Taken cache n w) : Taken cache' n w := by
    obtain ⟨v, hv, hne⟩ := ht
    exact ⟨v, hcache v hv, hne⟩
  have hheld (hh : cache n ≠ none) : cache' n ≠ none := by
    obtain ⟨v, hv⟩ := Option.ne_none_iff_exists'.mp hh
    simp [hcache v hv]
  refine ⟨h.fresh, h.unsealed, ?_, h.flight, h.cleanup, ?_, fun hr => hheld (h.returned hr)⟩
  · exact fun d hd => (h.intact d hd).imp_right (Or.imp_left htaken)
  · intro i
    have hi := h.task i
    cases hpc : x.tasks i with rw [hpc] at hi
    | idle | marking | failed => exact trivial
    | marked => exact hi.imp_left htaken
    | syncing rest => exact hi.imp_left htaken
    | moving => exact hi.imp_left htaken
    | checking | removing => exact htaken hi
    | done => exact hheld hi

/-! ### Steps that leave the directory alone -/

theorem Inv.move (h : Inv entryName s) {caller : CallerPc} {abandoned : Bool} {cleanup : CleanupPc}
    {killed : Bool}
    (hfresh : caller = .idle ∨ caller = .looked ∨ caller = .gaveUp →
      (s.writers w).temporary = false ∧ (s.writers w).built = none)
    (hsticky : (s.writers w).cleanup ≠ .idle → cleanup ≠ .idle)
    (hflight : abandoned = false → ∀ j, ((s.writers w).tasks j).InFlight → caller = .committing j)
    (hcleanup : cleanup ≠ .idle → caller = .ended ∧ ∀ j, ¬((s.writers w).tasks j).InFlight)
    (hreturned : caller = .hit ∨ caller = .committed → s.cache (entryName w) ≠ none) :
    Inv entryName (s.set w { s.writers w with
      caller := caller, abandoned := abandoned, cleanup := cleanup, killed := killed }) := by
  apply h.set ((h.writer w).move hfresh hsticky hflight hcleanup hreturned)
  intro hp
  exact ⟨hp.moved, hp.complete, hp.snapshot, hp.synced⟩

theorem Inv.moveUnbuilt (h : Inv entryName s) {caller : CallerPc} (hbuilt : (s.writers w).built = none)
    (hrunning : (s.writers w).caller ≠ .ended)
    (hfresh : caller = .idle ∨ caller = .looked ∨ caller = .gaveUp → (s.writers w).temporary = false)
    (hreturned : caller = .hit ∨ caller = .committed → s.cache (entryName w) ≠ none) :
    Inv entryName (s.set w { s.writers w with caller := caller }) :=
  h.set ((h.writer w).moveUnbuilt hbuilt hrunning hfresh hreturned)
    fun hp => absurd hp (not_published_of_unbuilt hbuilt)

/-- The caller of `commit` goes on after its task has ended. -/
theorem Inv.leaveCommit (h : Inv entryName s) {caller : CallerPc} (hpc : (s.writers w).caller = .committing j)
    (hended : ¬((s.writers w).tasks j).InFlight) (hlater : ¬(caller = .idle ∨ caller = .looked ∨ caller = .gaveUp))
    (hreturned : caller = .hit ∨ caller = .committed → s.cache (entryName w) ≠ none) :
    Inv entryName (s.set w { s.writers w with caller := caller }) := by
  have hw := h.writer w
  refine h.move (fun hearly => absurd hearly hlater) id ?_ ?_ hreturned
  · exact fun habandoned i hi => absurd hi (hw.no_flight_of_ended hpc hended habandoned i)
  · exact fun hclean => absurd (hw.not_cleaning (by simp [hpc])) hclean

theorem Inv.setTask (h : Inv entryName s) {pc : TaskPc} (hbefore : ((s.writers w).tasks j).InFlight)
    (hpc : TaskInv s.cache (entryName w) w (s.writers w) pc) :
    Inv entryName (s.set w ((s.writers w).setTask j pc)) := by
  apply h.set ((h.writer w).setTask hbefore hpc)
  intro hp
  exact ⟨hp.moved, hp.complete, hp.snapshot, hp.synced⟩

end

end DeepJit.Publication
