import DeepJit.Cache.PublicationInvariant

/-!
# Publication is atomic and survives a power loss

What is published is complete, stays as it is, and is on the device, whichever operation of
whichever process comes next.
-/

namespace DeepJit.Publication

section

variable {entryName : Nat → Bytes} {s s' : State} {n : Bytes} {w j : Nat}

/-! ### Every step -/

/-- A collision is one with another writer. -/
theorem Inv.taken (h : Inv entryName s) (htemporary : (s.writers w).temporary = true)
    (hfree : ¬s.Free (entryName w)) :
    Taken s.cache (entryName w) w := by
  simp only [State.Free, not_forall] at hfree
  obtain ⟨v, hv, -⟩ := hfree
  refine ⟨v, hv, ?_⟩
  intro heq
  exact not_published htemporary (heq ▸ (h.published _ v hv).2)

theorem Inv.rename (h : Inv entryName s) (hpc : (s.writers w).tasks j = .moving)
    (htemporary : (s.writers w).temporary = true) (hfree : s.Free (entryName w)) :
    Inv entryName (s.rename (entryName w) w j) := by
  have hnone : s.cache (entryName w) = none := by
    by_contra hheld
    exact h.not_free hheld hfree
  have hflying : ((s.writers w).tasks j).InFlight := by simp [hpc, TaskPc.InFlight]
  obtain ⟨hcomplete, hsynced⟩ : (s.writers w).Complete ∧ (s.writers w).volume.Synced := by
    have htask := (h.writer w).task j
    rw [hpc] at htask
    rcases htask with ⟨v, hv, -⟩ | hready
    · simp [hnone] at hv
    · exact hready
  have hextends (n v : Nat) (hv : s.cache (entryName n) = some v) :
      Function.update s.cache (entryName w) (some w) (entryName n) = some v := by
    have hne : entryName n ≠ entryName w := by
      intro heq
      simp [heq, hnone] at hv
    rw [Function.update_of_ne hne, hv]
  constructor
  · intro v
    have hv := (h.writer v).extend (hextends v)
    by_cases hvw : v = w
    · subst hvw
      have hdone := hv.setTask hflying (show TaskInv _ _ _ _ .done by simp [TaskInv])
      simp only [State.rename, State.set, Function.update_self]
      refine hdone.move ?_ id hdone.flight hdone.cleanup hdone.returned
      exact fun hearly => ⟨rfl, (hdone.fresh hearly).2⟩
    · simpa [State.rename, State.set, hvw] using hv
  · intro n v hn
    by_cases hname : n = entryName w
    · subst hname
      obtain rfl : w = v := by simpa [State.rename] using hn
      refine ⟨rfl, ?_⟩
      simp only [State.rename, State.set, Function.update_self]
      exact ⟨rfl, hcomplete, rfl, hsynced⟩
    · have hn' : s.cache n = some v := by simpa [State.rename, hname] using hn
      obtain ⟨hname', hpublished⟩ := h.published n v hn'
      have hne : v ≠ w := by
        intro heq
        exact hname (heq ▸ hname')
      exact ⟨hname', by simpa [State.rename, State.set, hne] using hpublished⟩
  · intro n v hn
    have hn' := h.durable n v hn
    obtain rfl := (h.published n v hn').1
    exact hextends v v hn'

theorem Inv.step (h : Inv entryName s) {a : Action} (hstep : Step entryName s a s') :
    Inv entryName s' := by
  cases hstep with
  | @hit w halive hpc hmarked =>
      have hbuilt := ((h.writer w).fresh (.inl hpc)).2
      exact h.moveUnbuilt hbuilt (by simp [hpc]) (by simp) fun _ => h.marked_iff.mp hmarked
  | @miss w halive hpc hmarked =>
      obtain ⟨htemporary, hbuilt⟩ := (h.writer w).fresh (.inl hpc)
      exact h.moveUnbuilt hbuilt (by simp [hpc]) (fun _ => htemporary) (by simp)
  | @lookupFails w halive hpc =>
      have hbuilt := ((h.writer w).fresh (.inl hpc)).2
      exact h.moveUnbuilt hbuilt (by simp [hpc]) (by simp) (by simp)
  | @setUp w v halive hpc hempty =>
      have hw := h.writer w
      have hbuilt := (hw.fresh (.inr (.inl hpc))).2
      have hv := hw.setVolume (v := v) (.inl hbuilt)
      exact h.set (hv.moveUnbuilt hbuilt (by simp [hpc]) (by simp) (by simp))
        fun hp => absurd hp (not_published_of_unbuilt hbuilt)
  | @setUpFails w halive hpc =>
      obtain ⟨htemporary, hbuilt⟩ := (h.writer w).fresh (.inr (.inl hpc))
      exact h.moveUnbuilt hbuilt (by simp [hpc]) (fun _ => htemporary) (by simp)
  | @setUpLate w v halive hpc hempty =>
      have hw := h.writer w
      have hbuilt := (hw.fresh (.inr (.inr hpc))).2
      have hv := hw.setVolume (v := v) (.inl hbuilt)
      exact h.set (hv.moveUnbuilt hbuilt (by simp [hpc]) (by simp) (by simp))
        fun hp => absurd hp (not_published_of_unbuilt hbuilt)
  | @write w d halive hpc htemporary hbuilt hroot =>
      exact h.set ((h.writer w).setVolume (.inl hbuilt))
        fun hp => absurd hp (not_published htemporary)
  | @commit w j halive hpc htask =>
      have hw := h.writer w
      refine h.set (hw.commit hpc htask) fun hp => ?_
      obtain ⟨d, hd, hdirectory⟩ := hp.complete
      exact ⟨hp.moved, ⟨d, by simp [hd], hdirectory⟩, hp.snapshot, hp.synced⟩
  | @commitReturns w j halive hpc htask =>
      have hdone := (h.writer w).task j
      rw [htask] at hdone
      exact h.leaveCommit hpc (by simp [htask, TaskPc.InFlight]) (by simp) fun _ => hdone
  | @commitThrows w j halive hpc htask =>
      exact h.leaveCommit hpc (by simp [htask, TaskPc.InFlight]) (by simp) (by simp)
  | @commitExpires w j halive hpc =>
      have hw := h.writer w
      refine h.move (by simp) id (by simp) ?_ (by simp)
      exact fun hclean => absurd (hw.not_cleaning (by simp [hpc])) hclean
  | @abandon w abandoned halive hpc htasks =>
      have hw := h.writer w
      refine h.move hw.fresh id ?_ hw.cleanup hw.returned
      exact fun habandoned i hi => absurd hi (htasks habandoned i)
  | @destroy w halive hpc =>
      have hw := h.writer w
      refine h.move (by simp) id ?_ ?_ (by simp)
      · intro habandoned i hi
        have hcommitting := hw.flight habandoned i hi
        rcases hpc with ⟨-, hpc⟩ | hpc | hpc
        · have habandoned' : (s.writers w).abandoned = false := habandoned
          simp [hpc] at habandoned'
        · simp [hpc] at hcommitting
        · simp [hpc] at hcommitting
      · exact fun hclean => ⟨rfl, (hw.cleanup hclean).2⟩
  | @destroyCleans w halive hpc habandoned =>
      have hw := h.writer w
      have hno (i : Nat) : ¬((s.writers w).tasks i).InFlight := by
        intro hi
        have hcommitting := hw.flight habandoned i hi
        simp [hpc] at hcommitting
      refine h.move (by simp) (by simp) ?_ (fun _ => ⟨rfl, hno⟩) (by simp)
      exact fun _ i hi => absurd hi (hno i)
  | @cleaned w halive hpc =>
      have hw := h.writer w
      have hclean : (s.writers w).cleanup ≠ .idle := by simp [hpc]
      exact h.move hw.fresh (by simp) hw.flight (fun _ => hw.cleanup hclean) hw.returned
  | @mark w j halive hpc htemporary hfile =>
      exact h.set ((h.writer w).mark hpc) fun hp => absurd hp (not_published htemporary)
  | @syncMarker w j inode halive hpc htemporary hinode =>
      have hw := h.writer w
      have hmarked := hw.task j
      rw [hpc] at hmarked
      have hsynced := hw.resync (v := (s.writers w).volume.fsync inode) rfl
        fun i hi => List.mem_cons_of_mem _ hi
      refine h.set (hsynced.setTask (by simp [hpc, TaskPc.InFlight]) ?_)
        fun hp => absurd hp (not_published htemporary)
      exact hmarked.imp_right fun hcomplete => ⟨hcomplete, fun i hi => .inr ((mem_fsyncDir _ i).mpr hi)⟩
  | @sync w j inode rest halive hpc htemporary =>
      have hw := h.writer w
      have hsyncing := hw.task j
      rw [hpc] at hsyncing
      have hsynced := hw.resync (v := (s.writers w).volume.fsync inode) rfl
        fun i hi => List.mem_cons_of_mem _ hi
      refine h.set (hsynced.setTask (by simp [hpc, TaskPc.InFlight]) ?_)
        fun hp => absurd hp (not_published htemporary)
      refine hsyncing.imp_right fun hc => ⟨hc.1, fun i hi => ?_⟩
      rcases hc.2 i hi with hold | hrest
      · exact .inl (List.mem_cons_of_mem _ hold)
      · rcases List.mem_cons.mp hrest with rfl | hrest
        · exact .inl (by simp)
        · exact .inr hrest
  | @makeDirs w j halive hpc =>
      have hw := h.writer w
      have hsyncing := hw.task j
      rw [hpc] at hsyncing
      refine h.setTask (by simp [hpc, TaskPc.InFlight]) ?_
      exact hsyncing.imp_right fun hc => ⟨hc.1, fun i hi => (hc.2 i hi).resolve_right (by simp)⟩
  | rename halive hpc htemporary hfree => exact h.rename hpc htemporary hfree
  | @collide w j halive hpc htemporary hfree =>
      exact h.setTask (by simp [hpc, TaskPc.InFlight]) (h.taken htemporary hfree)
  | @complete w j halive hpc hmarked =>
      have htask := (h.writer w).task j
      rw [hpc] at htask
      exact h.setTask (by simp [hpc, TaskPc.InFlight]) htask
  | @removed w j halive hpc =>
      have htask := (h.writer w).task j
      rw [hpc] at htask
      have hheld : s.cache (entryName w) ≠ none := by
        obtain ⟨v, hv, -⟩ := htask
        simp [hv]
      exact h.setTask (by simp [hpc, TaskPc.InFlight]) hheld
  | @fail w j halive hpc =>
      exact h.setTask hpc trivial
  | @remove w d halive hpc htemporary hroot hremoves =>
      have hw := h.writer w
      refine h.set (hw.setVolume ?_) fun hp => absurd hp (not_published htemporary)
      rcases hpc with hcleanup | ⟨j, hj⟩
      · exact .inr (.inl (by simp [hcleanup]))
      · have htask := hw.task j
        rw [hj] at htask
        exact .inr (.inr htask)
  | @removeRoot w halive hpc htemporary hempty =>
      have hw := h.writer w
      refine h.set (hw.move ?_ id hw.flight hw.cleanup hw.returned)
        fun hp => absurd hp (not_published htemporary)
      exact fun hearly => ⟨rfl, (hw.fresh hearly).2⟩
  | @kill w =>
      have hw := h.writer w
      exact h.move hw.fresh id hw.flight hw.cleanup hw.returned
  | @persist w inode node hsynced =>
      exact h.set ((h.writer w).resync rfl fun _ => id)
        fun hp => ⟨hp.moved, hp.complete, hp.snapshot, hp.synced⟩
  | persistRename n =>
      refine ⟨h.writer, h.published, ?_⟩
      intro m w hm
      by_cases hmn : m = n
      · subst hmn
        simpa using hm
      · exact h.durable m w (by simpa [hmn] using hm)

theorem Inv.stable (h : Inv entryName s) {a : Action} (hstep : Step entryName s a s') :
    Stable s s' := by
  cases hstep with
  | @rename w j halive hpc htemporary hfree =>
      intro n v hn
      have hne : n ≠ entryName w := by
        intro heq
        exact h.not_free (by simp [← heq, hn]) hfree
      have hvw : v ≠ w := by
        intro heq
        exact hne ((h.published n v hn).1.trans (by rw [heq]))
      exact ⟨by simp [State.rename, hne, hn], by simp [State.rename, State.set, hvw]⟩
  | persistRename n => exact fun m v hm => ⟨hm, rfl⟩
  | _ => exact stable_set rfl

theorem inv_of_reachable (h : (system entryName).Reachable s) : Inv entryName s :=
  h.invariant (fun _ => inv_init) fun _ _ _ hinv hstep => hinv.step hstep

/-- What was published stays there. -/
theorem stable_of_run (hs : (system entryName).Reachable s) (hrun : (system entryName).Run s s')
    {d : Directory Bytes Bytes}
    (hcache : s.cache n = some w) (hdirectory : (s.writers w).volume.directory = d) :
    s'.cache n = some w ∧ (s'.writers w).volume.directory = d := by
  have hsnapshot := ((inv_of_reachable hs).published n w hcache).2.snapshot
  rw [hdirectory] at hsnapshot
  have hkept : s'.cache n = some w ∧ (s'.writers w).published = some d := by
    apply hrun.invariant_of_reachable (I := fun s => s.cache n = some w ∧
      (s.writers w).published = some d)
      (J := Inv entryName) (fun _ => inv_init) (fun _ _ _ hinv hstep => hinv.step hstep) _ hs ⟨hcache, hsnapshot⟩
    intro s₁ a s₂ hinv hboth hstep
    obtain ⟨hcache', hpublished⟩ := hinv.stable hstep n w hboth.1
    exact ⟨hcache', hpublished.trans hboth.2⟩
  obtain ⟨hcache', hpublished⟩ := hkept
  have hsnapshot' := ((inv_of_reachable (hs.run hrun)).published n w hcache').2.snapshot
  exact ⟨hcache', Option.some.inj (hsnapshot'.symm.trans hpublished)⟩

/-- In every reachable state: an entry with a marker holds what one writer had in its temporary
directory when its rename ran, which is everything it had when it called `commit` and the marker; it
stays so in every later state; and a caller whose `commit` returns, by a hit or after a commit,
finds the marker in its entry. -/
theorem publication_atomic (hs : (system entryName).Reachable s) :
    (∀ n w, s.cache n = some w → (s.writers w).volume.directory.Contains kCommitFileName →
      n = entryName w ∧ (s.writers w).published = some (s.writers w).volume.directory ∧
      (∃ d, (s.writers w).built = some d ∧ (s.writers w).volume.directory = withMarker d) ∧
      ∀ s', (system entryName).Run s s' →
        s'.cache n = some w ∧ (s'.writers w).volume.directory = (s.writers w).volume.directory) ∧
    ∀ w, (s.writers w).caller = .hit ∨ (s.writers w).caller = .committed →
    s.Marked (entryName w) := by
  have h := inv_of_reachable hs
  constructor
  · intro n w hcache _
    obtain ⟨hname, hpublished⟩ := h.published n w hcache
    exact ⟨hname, hpublished.snapshot, hpublished.complete,
      fun s' hrun => stable_of_run hs hrun hcache rfl⟩
  · intro w hreturned
    exact h.marked_iff.mpr ((h.writer w).returned hreturned)

/-- The device has a marker in an entry. -/
def State.DurablyMarked (s : State) (n : Bytes) : Prop :=
  ∃ w, s.durableCache n = some w ∧ ∃ listing inode,
    (s.writers w).volume.device (s.writers w).volume.directory.inode = some (.dir listing) ∧
      (kCommitFileName, inode) ∈ listing

/-- Whenever the power is lost: if the device has a marker in an entry, then it has every file and
directory of what the writer of the entry had when it called `commit`, with the marker. -/
theorem publication_durable (hs : (system entryName).Reachable s) (hmarked : s.DurablyMarked n) :
    ∃ w d, s.durableCache n = some w ∧ (s.writers w).built = some d ∧
      (withMarker d).StoredOn (s.writers w).volume.device := by
  have h := inv_of_reachable hs
  obtain ⟨w, hcache, -⟩ := hmarked
  have hpublished := (h.published n w (h.durable n w hcache)).2
  obtain ⟨d, hd, hdirectory⟩ := hpublished.complete
  exact ⟨w, d, hcache, hd, hdirectory ▸ hpublished.synced.storedOn⟩

/-! ### Every directory can be published -/

/-- Writer 0 is in `commit`, with the given task, and nobody else holds its entry. -/
structure Committing (entryName : Nat → Bytes) (d : Directory Bytes Bytes) (s : State)
    (pc : TaskPc) : Prop where
  reachable : (system entryName).Reachable s
  free : s.cache (entryName 0) = none
  alive : (s.writers 0).killed = false
  temporary : (s.writers 0).temporary = true
  caller : (s.writers 0).caller = .committing 0
  task : (s.writers 0).tasks 0 = pc
  built : (s.writers 0).built = some d

theorem Committing.run_sync {d : Directory Bytes Bytes} (rest : List Nat)
    (h : Committing entryName d s (.syncing rest)) :
    ∃ s', Committing entryName d s' (.syncing []) := by
  induction rest generalizing s with
  | nil => exact ⟨s, h⟩
  | cons inode rest ih =>
      have hstep := h.reachable.tail (.sync h.alive h.task h.temporary)
      apply ih ⟨hstep, h.free, ?_, ?_, ?_, ?_, ?_⟩
      · simpa [State.set, Writer.setTask] using h.alive
      · simpa [State.set, Writer.setTask] using h.temporary
      · simpa [State.set, Writer.setTask] using h.caller
      · simp [State.set, Writer.setTask]
      · simpa [State.set, Writer.setTask] using h.built

theorem exists_committing (entryName : Nat → Bytes) (d : Directory Bytes Bytes)
    (hfile : d.entries.isDirectory kCommitFileName = false) :
    ∃ s rest, Committing entryName d s (.syncing rest) := by
  let v : Volume Bytes Bytes := ⟨⟨d.inode, .nil, by simp⟩, fun _ => none, [], by simp⟩
  have hinit : (system entryName).Reachable { writers := fun _ => { volume := v } } :=
    ⟨_, ⟨fun _ => ⟨v, rfl⟩, rfl, rfl⟩, .refl _⟩
  have hlooked := hinit.tail (.miss (w := 0) rfl rfl (by simp [State.Marked]))
  have hbuilding := hlooked.tail (.setUp (w := 0) (v := v) rfl rfl rfl)
  have hwritten := hbuilding.tail (.write (w := 0) (d := d) rfl (.inl rfl) rfl rfl rfl)
  have hcommitting := hwritten.tail (.commit (w := 0) (j := 0) rfl rfl rfl)
  have hmarked := hcommitting.tail (.mark (w := 0) (j := 0) rfl rfl rfl (by simpa [State.set, Writer.setTask] using hfile))
  obtain ⟨inode, hinode⟩ := contains_withMarker d
  have hsyncing := hmarked.tail (.syncMarker (w := 0) (j := 0) rfl rfl rfl
    (by simpa [State.set, Writer.setTask] using hinode))
  refine ⟨_, _, ⟨hsyncing, rfl, rfl, rfl, rfl, rfl, ?_⟩⟩
  simp [State.set, Writer.setTask]

theorem Published.marker_on_device {x : Writer} (h : Published x) :
    ∃ listing inode, x.volume.device x.volume.directory.inode = some (.dir listing) ∧
    (kCommitFileName, inode) ∈ listing := by
  obtain ⟨inode, hinode⟩ := h.complete.contains
  exact ⟨_, inode, h.synced.storedOn.1, hinode⟩

/-- Some run publishes the directory, and the rename becomes durable. -/
theorem exists_published (entryName : Nat → Bytes) (d : Directory Bytes Bytes)
    (hfile : d.entries.isDirectory kCommitFileName = false) :
    ∃ s, (system entryName).Reachable s ∧ (s.writers 0).caller = .committed ∧
    s.DurablyMarked (entryName 0) ∧
      (s.writers 0).built = some d := by
  obtain ⟨s, rest, hsyncing⟩ := exists_committing entryName d hfile
  obtain ⟨s₁, h₁⟩ := hsyncing.run_sync
  have hmoving := h₁.reachable.tail (.makeDirs h₁.alive h₁.task)
  have hmoved := hmoving.tail (.rename (w := 0) (j := 0) (by simpa [State.set, Writer.setTask] using h₁.alive)
    (by simp [State.set, Writer.setTask]) (by simpa [State.set, Writer.setTask] using h₁.temporary)
    (by simp [State.Free, State.set, h₁.free]))
  have hreturned := hmoved.tail (.commitReturns (w := 0) (j := 0)
    (by simpa [State.rename, State.set, Writer.setTask] using h₁.alive)
    (by simpa [State.rename, State.set, Writer.setTask] using h₁.caller)
    (by simp [State.rename, State.set, Writer.setTask]))
  have hdurable := hreturned.tail (.persistRename (entryName 0))
  refine ⟨_, hdurable, by simp [State.set], ?_, by simpa [State.rename, State.set, Writer.setTask] using h₁.built⟩
  have hpublished := ((inv_of_reachable hdurable).published (entryName 0) 0 (by simp [State.rename, State.set])).2
  exact ⟨0, by simp [State.rename, State.set], hpublished.marker_on_device⟩

/-- An entry with a file in a directory next to another file. -/
def Directory.sample : Directory Bytes Bytes where
  inode := 0
  entries := .dir (bytes "dump") 1 (.file (bytes "kernel.sass") 2 [1] .nil) (.file (bytes "kernel.cubin") 3 [2] .nil)
  distinct := by decide

theorem publication_atomic_sample :
    ∃ s, (system fun _ => bytes "kernel.0").Reachable s ∧ (s.writers 0).caller = .committed ∧
      s.Marked (bytes "kernel.0") := by
  obtain ⟨s, hs, hreturned, -, -⟩ := exists_published (fun _ => bytes "kernel.0") Directory.sample rfl
  exact ⟨s, hs, hreturned, (publication_atomic hs).2 0 (.inr hreturned)⟩

theorem publication_durable_sample :
    ∃ s w d, (system fun _ => bytes "kernel.0").Reachable s ∧ (s.writers w).built = some d ∧
      (withMarker d).StoredOn (s.writers w).volume.device := by
  obtain ⟨s, hs, -, hmarked, -⟩ := exists_published (fun _ => bytes "kernel.0") Directory.sample rfl
  obtain ⟨w, d, -, hbuilt, hstored⟩ := publication_durable hs hmarked
  exact ⟨s, w, d, hs, hbuilt, hstored⟩

end

end DeepJit.Publication
