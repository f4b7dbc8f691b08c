import DeepJit.Runtime.RequestRules

/-!
# Timeout accounting

The counter of a root against the I/O tasks that timed out on it. Every error passes through one
`report_error` on its root, so a counter is exact between operations and owes one while a timeout is
on its way to its handler. Two timeouts miss that path. The destructor swallows the timeout of a
cleanup, and a timeout that leaves `build_loader` at the last root has been reported there and is
reported again by `compile_impl`.
-/

namespace DeepJit

/-! ### Counting -/

/-- A timed-out I/O task on a root. -/
def Event.isTimeoutOf (root : Nat) : Event → Bool
  | .operation _ kind place .late => kind.isIoTask && place.root == root
  | _ => false

def lateTasks (root : Nat) (log : List Event) : Nat := log.countP (Event.isTimeoutOf root)

/-- A timeout that is not reported, or reported twice: of a cleanup, or in the work of
`build_loader` on the last root. -/
def Event.isMiscounted (numRoots : Nat) : Event → Bool
  | .operation _ .cleanup _ .late => true
  | .operation .loader kind place .late => kind.isWork && kind.isIoTask && place.root + 1 == numRoots
  | _ => false

/-- Every check in a log skips its root exactly when three tasks on it have timed out before. -/
def ChecksExact (log : List Event) : Prop :=
  ∀ later client root skipped earlier, log = later ++ .check client root skipped :: earlier →
    (skipped = true ↔ 3 ≤ lateTasks root earlier)

/-- The counters, with the timeouts that are still to be reported, and the checks are exact, unless
a timeout was miscounted. -/
def Counted (numRoots : Nat) (owed : Nat → Nat) (s : Session) : Prop :=
  (∀ event ∈ s.log, event.isMiscounted numRoots = false) →
    (∀ root, s.numTimeouts root + owed root = lateTasks root s.log) ∧ ChecksExact s.log

/-- What is owed while an error from a root is on its way to its handler. -/
def owedBy (error : Exn) (root : Nat) : Nat → Nat :=
  fun r => if error.isTimeout = true ∧ r = root then 1 else 0

theorem lateTasks_cons (root : Nat) (event : Event) (log : List Event) :
    lateTasks root (event :: log) = lateTasks root log + if event.isTimeoutOf root = true then 1 else 0 := by
  rw [lateTasks, lateTasks, List.countP_cons]

theorem ChecksExact.cons {event : Event} {log : List Event} (h : ChecksExact log)
    (hevent : ∀ client root skipped, event = .check client root skipped →
      (skipped = true ↔ 3 ≤ lateTasks root log)) : ChecksExact (event :: log) := by
  intro later client root skipped earlier heq
  cases later with
  | nil =>
      simp only [List.nil_append, List.cons.injEq] at heq
      obtain ⟨rfl, rfl⟩ := heq
      exact hevent client root skipped rfl
  | cons last later =>
      simp only [List.cons_append, List.cons.injEq] at heq
      exact h later client root skipped earlier heq.2

section

variable {numRoots : Nat} {owed : Nat → Nat} {s : Session}

/-- An event that is no check and no timed-out task changes no count. -/
theorem Counted.record (h : Counted numRoots owed s) {event : Event}
    (hcheck : ∀ client root skipped, event ≠ .check client root skipped)
    (hlate : ∀ root, event.isTimeoutOf root = false) : Counted numRoots owed (s.record event) := by
  intro hclean
  obtain ⟨hcount, hchecks⟩ := h fun event hevent => hclean event (List.mem_cons_of_mem _ hevent)
  refine ⟨fun root => ?_, hchecks.cons fun client root skipped heq => absurd heq (hcheck client root skipped)⟩
  rw [Session.record_numTimeouts, Session.record_log, lateTasks_cons, hlate root, hcount root]
  simp

/-- A timed-out task is owed to its root. -/
theorem Counted.late (h : Counted numRoots (fun _ => 0) s) (client : Client) {kind : Operation}
    (hio : kind.isIoTask = true) (place : Place) :
    Counted numRoots (owedBy .ioTimeout place.root)
      (s.record (.operation client kind place .late)) := by
  intro hclean
  obtain ⟨hcount, hchecks⟩ := h fun event hevent => hclean event (List.mem_cons_of_mem _ hevent)
  refine ⟨fun root => ?_, hchecks.cons fun client root skipped heq => by simp at heq⟩
  rw [Session.record_numTimeouts, Session.record_log, lateTasks_cons, ← hcount root]
  by_cases hroot : root = place.root
  · simp [owedBy, Event.isTimeoutOf, Exn.isTimeout, hio, hroot]
  · simp [owedBy, Event.isTimeoutOf, Exn.isTimeout, hio, hroot, Ne.symm hroot]

/-- `report_error` pays what is owed. -/
theorem Counted.report {error : Exn} {root : Nat} (h : Counted numRoots (owedBy error root) s) :
    Counted numRoots (fun _ => 0) (s.reportError root error) := by
  intro hclean
  obtain ⟨hcount, hchecks⟩ := h fun event hevent => hclean event (List.mem_cons_of_mem _ hevent)
  refine ⟨fun r => ?_, hchecks.cons fun client root skipped heq => by simp at heq⟩
  have hr := hcount r
  rw [Session.reportError_numTimeouts, Session.reportError_log, lateTasks_cons, ← hr]
  simp [owedBy, Event.isTimeoutOf]

theorem Counted.check (h : Counted numRoots (fun _ => 0) s) (client : Client) (root : Nat) :
    Counted numRoots (fun _ => 0) (s.checkTimeouts client root).2 := by
  intro hclean
  obtain ⟨hcount, hchecks⟩ := h fun event hevent => hclean event (List.mem_cons_of_mem _ hevent)
  refine ⟨fun r => ?_, hchecks.cons fun client' root' skipped heq => ?_⟩
  · show s.numTimeouts r + 0 = lateTasks r (_ :: s.log)
    rw [lateTasks_cons, ← hcount r]
    simp [Event.isTimeoutOf]
  · simp only [Event.check.injEq] at heq
    obtain ⟨-, rfl, rfl⟩ := heq
    rw [decide_eq_true_eq, ← hcount root, Nat.add_zero]

/-- An error that is raised by an operation on a root is owed to it if it is a timeout. -/
theorem Counted.raised (h : Counted numRoots (fun _ => 0) s) {fallbackDisabled : Bool}
    {client : Client} {kind : Operation} {error : Exn} {status : Status}
    (hraised : Raised fallbackDisabled error kind status)
    (place : Place) : Counted numRoots (owedBy error place.root)
    (s.record (.operation client kind place status)) := by
  have howed : ∀ what, owedBy (.other what) place.root = fun _ => 0 := fun what => by
    funext r
    simp [owedBy, Exn.isTimeout]
  cases hraised with
  | late hio _ => exact h.late client hio place
  | expired _ => exact howed _ ▸ h.record (by simp) fun root => rfl
  | failed kind what => exact howed _ ▸ h.record (by simp) fun root => rfl

theorem Counted.succeeded (h : Counted numRoots owed s) {client : Client} {place : Place}
    {events : List Event}
    (hevents : Succeeded client place events) : Counted numRoots owed (s.recordAll events) := by
  induction events with
  | nil => exact h
  | cons event events ih =>
      obtain ⟨kind, -, rfl⟩ := hevents event (by simp)
      have hrest := ih fun event hevent => hevents event (by simp [hevent])
      exact Counted.record (s := s.recordAll events) hrest (by simp) fun root => rfl

theorem Counted.failed (h : Counted numRoots (fun _ => 0) s) {fallbackDisabled : Bool}
    {client : Client} {place : Place} {error : Exn} {s' : Session}
    (hfailed : Failed fallbackDisabled client place s error s') :
    Counted numRoots (owedBy error place.root) s' := by
  obtain ⟨events, kind, status, hevents, hraised, -, rfl⟩ := hfailed
  exact (h.succeeded hevents).raised hraised place

theorem Counted.setUp (h : Counted numRoots (fun _ => 0) s) (client : Client) (root : Nat)
    (creates : Bool) {fallbackDisabled : Bool} {error : Exn} {status : Status}
    (hraised : Raised fallbackDisabled error .setup status) :
    Counted numRoots (owedBy error root) (s.setUp client root creates status) := by
  have hcreated : Counted numRoots (fun _ => 0)
      (if creates then s.record (.created (.temporary root s.uuids)) else s) := by
    split
    · exact h.record (by simp) fun root => rfl
    · exact h
  cases creates <;> exact hcreated.raised hraised (.temporary root s.uuids)

end

/-! ### Counting through a request

Fallback is enabled from here on. -/

section

variable {cache : DiskCache}

/-- The session of a request between two operations. -/
abbrev Exact (cache : DiskCache) : Session → Prop := Counted cache.paths.length fun _ => 0

/-- A timeout that leaves the loop of `build_loader` has been counted there. -/
def Leaves (cache : DiskCache) (error : Exn) (s : Session) : Prop :=
  Exact cache s ∧ (error.isTimeout = true →
    ∃ event ∈ s.log, event.isMiscounted cache.paths.length = true)

theorem exact_entryInvariant (client : Client) : EntryInvariant false client (Exact cache) where
  check root hs := hs.check client root
  lookup hs _ hstatus := by
    refine Counted.record hs (by simp) fun root => ?_
    rcases hstatus with rfl | rfl <;> rfl
  lookupFailed hs _ _ hraised := (hs.raised hraised _).report
  setupFailed creates hs _ _ hraised := (hs.setUp client _ creates hraised).report

/-- What an entry is obtained with: exact counts, and a path on its own root. -/
def ObtainedExact (first : Nat) (entry : DiskCacheEntry cache first) (s : Session) : Prop :=
  Exact cache s ∧ entry.path.root = entry.root ∧
    (entry.hit = true ∨ (entry.hit = false ∧ entry.committed = false ∧
      (entry.commitPath.getD entry.path).root = entry.root))

theorem exact_entry (client : Client) (tag digest : Bytes) (o : EntryOutcomes) (first : Nat)
    {s : Session} (hs : Exact cache s) :
    Post (ObtainedExact first) (fun error s => error.isTimeout = false ∧ Exact cache s)
      (cache.entry false client tag digest o first s) := by
  refine (entry_rule (exact_entryInvariant client) tag digest o first hs).imp ?_ ?_
  · rintro entry s' (⟨hs', hhit, hpath⟩ | ⟨s₁, shared, hs₁, -, rfl, hentry⟩)
    · exact ⟨hs', by rw [hpath]; rfl, .inl hhit⟩
    · refine ⟨?_, by rw [hentry]; rfl, .inr ⟨by rw [hentry], by rw [hentry], by rw [hentry]; rfl⟩⟩
      have hcreated : Exact cache (s₁.record (.created (.temporary entry.root s₁.uuids))) :=
        Counted.record hs₁ (by simp) fun root => rfl
      exact Counted.record hcreated (by simp) fun root => rfl
  · rintro error s' (h | ⟨hdisabled, -⟩)
    · exact h
    · exact absurd hdisabled (by decide)

theorem exact_destroy {first : Nat} (entry : DiskCacheEntry cache first) (client : Client)
    (cleanup : IoTask Unit)
    {s : Session} (hs : Exact cache s) : Exact cache (entry.destroy false client cleanup s) := by
  rw [DiskCacheEntry.destroy]
  split
  · exact hs
  · cases hcleanup : runInIothread false cleanup with
    | ok _ =>
        have hdone : Exact cache (s.record (.operation client .cleanup entry.path .done)) :=
          Counted.record hs (by simp) fun root => rfl
        exact Counted.record hdone (by simp) fun root => rfl
    | error error =>
        cases error with
        | other what => exact Counted.record hs (by simp) fun root => rfl
        | ioTimeout =>
            intro hclean
            have hlate := hclean (.operation client .cleanup entry.path .late) (by simp [Status.of])
            simp [Event.isMiscounted] at hlate

theorem mem_destroy {first : Nat} (entry : DiskCacheEntry cache first) (fallbackDisabled : Bool)
    (client : Client) (cleanup : IoTask Unit) {s : Session} {event : Event} (h : event ∈ s.log) :
    event ∈ (entry.destroy fallbackDisabled client cleanup s).log := by
  rw [DiskCacheEntry.destroy]
  split
  · exact h
  · cases runInIothread fallbackDisabled cleanup <;> simp [h]

/-- After a build the entry is on its root still, and an error is owed to that root. -/
theorem exact_build {first : Nat} (client : Client) (o : WorkOutcomes) (steps : List Step)
    {entry : DiskCacheEntry cache first} (hhit : entry.hit = false)
    (hcommitted : entry.committed = false) (hpath : entry.path.root = entry.root)
    (hcommit : (entry.commitPath.getD entry.path).root = entry.root)
    {s : Session} (hs : Exact cache s) :
    Post (fun _ out => out.1.path.root = out.1.root ∧ Exact cache out.2)
      (fun error out => (∃ place, place.root = out.1.root.val ∧
        Failed false client place s error out.2) ∧
        Counted cache.paths.length (owedBy error out.1.root) out.2)
      (build false client o steps entry s) := by
  refine (build_spec false client o steps hhit hcommitted s).imp ?_ ?_
  · rintro _ ⟨entry', s'⟩ ⟨rfl, events, publication, hevents, rfl⟩
    refine ⟨hcommit, Counted.record (Counted.succeeded hs hevents) ?_ ?_⟩ <;> cases publication <;>
      simp [publicationEvent, Event.isTimeoutOf]
  · rintro error ⟨entry', s'⟩ ⟨hfailed, abandoned, rfl, -⟩
    exact ⟨⟨entry.path, hpath, hfailed⟩, hpath ▸ Counted.failed hs hfailed⟩

/-- What is owed is paid by the handler. -/
theorem exact_handled {first : Nat} (client : Client) (cleanup : IoTask Unit) {error : Exn}
    {entry : DiskCacheEntry cache first} {s : Session}
    (h : Counted cache.paths.length (owedBy error entry.root) s) :
    Exact cache ((entry.abandon (leavesWork error)).destroy false client cleanup (s.reportError entry.root error)) :=
  exact_destroy _ client cleanup h.report

/-- Work on a build or a load of the loader whose error leaves the loop. -/
theorem leaves_handled {first : Nat} (cleanup : IoTask Unit) {error : Exn}
    {entry : DiskCacheEntry cache first} {place : Place} (hplace : place.root = entry.root.val)
    (hlast : entry.root.val + 1 = cache.paths.length)
    {s s' : Session} (hfailed : Failed false .loader place s error s')
    (h : Counted cache.paths.length (owedBy error entry.root) s') :
    Leaves cache error
      ((entry.abandon (leavesWork error)).destroy false .loader cleanup (s'.reportError entry.root error)) := by
  refine ⟨exact_handled .loader cleanup h, fun htimeout => ?_⟩
  obtain ⟨events, kind, status, -, hraised, hwork, rfl⟩ := hfailed
  cases hraised with
  | late hio _ =>
      refine ⟨.operation .loader kind place .late, mem_destroy _ _ _ _ (by simp), ?_⟩
      have hroot : place.root + 1 = cache.paths.length := by omega
      cases kind <;> simp_all [Event.isMiscounted, Operation.isWork, Operation.isIoTask]
  | expired _ => simp [Exn.isTimeout] at htimeout
  | failed _ _ => simp [Exn.isTimeout] at htimeout

theorem exact_loaderWork (loader : Loader) (o : LoaderOutcomes) (first : Nat)
    (entry : DiskCacheEntry cache first) (s : Session) (hs : ObtainedExact first entry s) :
    Post (fun _ out => Exact cache (out.1.destroy false .loader (o.work out.1.root).cleanup out.2))
      (Handled false .loader (fun root => (o.work root).cleanup) (fun _ => Exact cache) (Leaves cache))
      (loaderWork cache false loader o first entry s) := by
  -- an error on the root of the entry, reported and counted against it
  have hhandled : ∀ (error : Exn) (out : DiskCacheEntry cache first × Session) (place : Place),
      place.root = out.1.root.val → Failed false .loader place s error out.2 →
      Counted cache.paths.length (owedBy error out.1.root) out.2 →
      Handled false .loader (fun root => (o.work root).cleanup) (fun _ => Exact cache) (Leaves cache) error out := by
    intro error out place hplace hfailed hcounted
    rw [Handled, if_neg (by decide)]
    dsimp only
    split
    · next hlast => exact leaves_handled _ hplace hlast hfailed hcounted
    · exact exact_handled .loader _ hcounted
  obtain ⟨hexact, hpath, hentry⟩ := hs
  rw [loaderWork]
  rcases hentry with hhit | ⟨hhit, hcommitted, hcommit⟩
  · rw [if_pos hhit]
    have hsteps := runSteps_spec false .loader entry.path (o.work entry.root).steps [.io] 0 s
    rcases hrun : runSteps false .loader entry.path (o.work entry.root).steps [.io] 0 s with ⟨result, s₁⟩
    rw [hrun] at hsteps
    cases result with
    | error error => exact hhandled error (entry, s₁) entry.path hpath hsteps (hpath ▸ Counted.failed hexact hsteps)
    | ok _ =>
        obtain ⟨events, hevents, rfl⟩ := hsteps
        exact exact_destroy entry .loader _ (Counted.succeeded hexact hevents)
  · rw [if_neg (by simp [hhit])]
    have hbuilt := exact_build .loader (o.work entry.root)
      [.io, .command (loader.command entry.path) fun _ _ => none, .io] hhit hcommitted hpath hcommit hexact
    rcases hrun : build false .loader (o.work entry.root)
      [.io, .command (loader.command entry.path) fun _ _ => none, .io] entry s with ⟨result, entry', s₁⟩
    rw [hrun] at hbuilt
    cases result with
    | error error =>
        obtain ⟨⟨place, hplace, hfailed⟩, hcounted⟩ := hbuilt
        exact hhandled error (entry', s₁) place hplace hfailed hcounted
    | ok _ => exact exact_destroy entry' .loader _ hbuilt.2

theorem exact_buildLoader (loader : Loader) (o : LoaderOutcomes) {s : Session}
    (hs : Exact cache s) :
    Post (fun _ s => Exact cache s) (Leaves cache) (buildLoader cache false loader o s) := by
  rw [buildLoader]
  cases o.prepare with
  | some what => exact ⟨hs, fun htimeout => by simp [Exn.isTimeout] at htimeout⟩
  | none =>
      refine run_rule (fun _ => Exact cache) ObtainedExact (fun first s hs => ?_)
        (exact_loaderWork loader o) hs
      exact (exact_entry .loader _ _ _ first hs).imp (fun _ _ => id) fun error s' h =>
        ⟨h.2, fun htimeout => by simp [h.1] at htimeout⟩

theorem exact_load {ρ : Type} (loader : Loader) (backend : Backend ρ) (place : Place)
    (o : AttemptOutcomes) {s : Session} (hs : Exact cache s) :
    Post (fun _ s => Exact cache s)
      (fun error s => Counted cache.paths.length (owedBy error place.root) s)
      (load cache false loader backend place o s) := by
  refine load_rule (fun s events hs hevents => hs.succeeded hevents)
    (fun s error s' hs hfailed => Counted.failed hs hfailed) o (fun s hs => ?_) hs
  refine (makeBootstrap_rule (E := Leaves cache)
    (fun what s hs => ⟨hs, fun htimeout => by simp [Exn.isTimeout] at htimeout⟩)
    (fun s hs => hs) o.bootstrap (fun s hs => exact_buildLoader loader _ hs) hs).imp (fun _ _ => id) ?_
  rintro error s' ⟨hexact, htimeout⟩
  cases error with
  | other what =>
      have hraised : Raised false (.other what) .bootstrap (.failed what) := .failed .bootstrap what
      exact hexact.raised hraised place
  | ioTimeout =>
      obtain ⟨event, hevent, hmiscounted⟩ := htimeout rfl
      intro hclean
      rw [hclean event (List.mem_cons_of_mem _ hevent)] at hmiscounted
      simp at hmiscounted

theorem exact_compileImpl {ρ : Type} (loader : Loader) (backend : Backend ρ) (loads : Bool)
    (name key : Bytes) (input : ρ) (o : RequestOutcomes) {s : Session} (hs : Exact cache s) :
    Post (fun _ s => Exact cache s) (fun _ s => Exact cache s)
      (compileImpl cache false loader backend loads name key input o s) := by
  refine run_rule (fun _ => Exact cache) ObtainedExact
    (fun first s hs => (exact_entry .runtime _ _ _ first hs).imp (fun _ _ => id) fun _ _ => And.right) ?_ hs
  rintro first entry s ⟨hexact, hpath, hentry⟩
  have hhandled : ∀ (error : Exn) (out : DiskCacheEntry cache first × Session),
      Counted cache.paths.length (owedBy error out.1.root) out.2 →
      Handled false .runtime (fun root => (o.attempt root).cleanup) (fun _ => Exact cache)
        (fun _ s => Exact cache s) error out := by
    intro error out hcounted
    rw [Handled, if_neg (by decide)]
    have hdone := exact_handled .runtime (o.attempt out.1.root).cleanup hcounted
    dsimp only
    split <;> exact hdone
  have hbuilt : Post (fun _ out => out.1.path.root = out.1.root.val ∧ Exact cache out.2)
      (fun error out => Counted cache.paths.length (owedBy error out.1.root) out.2)
      (buildEntry false backend input o entry s) := by
    rw [buildEntry]
    rcases hentry with hhit | ⟨hhit, hcommitted, hcommit⟩
    · rw [if_pos hhit]
      exact ⟨hpath, hexact⟩
    · rw [if_neg (by simp [hhit])]
      exact (exact_build .runtime _ _ hhit hcommitted hpath hcommit hexact).imp (fun _ _ => id)
        fun _ _ => And.right
  rw [requestWork]
  rcases hrun : buildEntry false backend input o entry s with ⟨result, entry', s₁⟩
  rw [hrun] at hbuilt
  cases result with
  | error error => exact hhandled error (entry', s₁) hbuilt
  | ok _ =>
      obtain ⟨hpath', hexact'⟩ := hbuilt
      dsimp only at hpath' hexact' ⊢
      split
      · have hloaded := exact_load loader backend entry'.path (o.attempt entry'.root) hexact'
        rcases hload : load cache false loader backend entry'.path (o.attempt entry'.root) s₁ with ⟨result, s₂⟩
        rw [hload, hpath'] at hloaded
        cases result with
        | error error => exact hhandled error (entry', s₂) hloaded
        | ok _ => exact exact_destroy entry' .runtime _ hloaded
      · exact exact_destroy entry' .runtime _ hexact'

end

/-! ### Skipped roots stay skipped -/

/-- An operation of `entry` on a root. -/
def Event.isEntryOn (root : Nat) : Event → Bool
  | .operation _ .lookup place _ | .operation _ .setup place _ => place.root == root
  | _ => false

/-- Once a root is skipped no call of `entry` touches it. -/
def QuietAfterSkip (log : List Event) : Prop :=
  ∀ later client root earlier, log = later ++ .check client root true :: earlier →
    ∀ event ∈ later, event.isEntryOn root = false

/-- Roots that were skipped have a counter of at least three, and are quiet. -/
def Quiet (s : Session) : Prop :=
  (∀ client root, .check client root true ∈ s.log → 3 ≤ s.numTimeouts root) ∧ QuietAfterSkip s.log

theorem QuietAfterSkip.cons {event : Event} {log : List Event} (h : QuietAfterSkip log)
    (hevent : ∀ client root, .check client root true ∈ log → event.isEntryOn root = false) :
    QuietAfterSkip (event :: log) := by
  intro later client root earlier heq last hlast
  cases later with
  | nil => simp at hlast
  | cons head later =>
      simp only [List.cons_append, List.cons.injEq] at heq
      obtain ⟨rfl, rfl⟩ := heq
      rcases List.mem_cons.mp hlast with rfl | hlast
      · exact hevent client root (by simp)
      · exact h later client root earlier rfl last hlast

theorem Quiet.record {s : Session} (h : Quiet s) {event : Event}
    (hcheck : ∀ client root, event ≠ .check client root true)
    (hentry : ∀ root, event.isEntryOn root = false) :
    Quiet (s.record event) := by
  refine ⟨fun client root hmem => ?_, h.2.cons fun _ root _ => hentry root⟩
  rcases List.mem_cons.mp hmem with heq | hmem
  · exact absurd heq.symm (hcheck client root)
  · exact h.1 client root hmem

/-- A root whose counter is below three was never skipped. -/
theorem Quiet.entry {s : Session} (h : Quiet s) {root : Nat} (hlow : s.numTimeouts root < 3)
    {event : Event} (hcheck : ∀ client root, event ≠ .check client root true)
    (hroot : ∀ r, event.isEntryOn r = true → r = root) : Quiet (s.record event) := by
  refine ⟨fun client r hmem => ?_, h.2.cons fun client r hmem => ?_⟩
  · rcases List.mem_cons.mp hmem with heq | hmem
    · exact absurd heq.symm (hcheck client r)
    · exact h.1 client r hmem
  · by_contra htouched
    rw [Bool.not_eq_false] at htouched
    obtain rfl := hroot r htouched
    have hskipped := h.1 client r hmem
    omega

theorem quiet_requestInvariant : RequestInvariant Quiet where
  check {s} client root hs := by
    refine ⟨fun client' root' hmem => ?_, hs.2.cons fun _ _ _ => rfl⟩
    rcases List.mem_cons.mp hmem with heq | hmem
    · simp only [Event.check.injEq] at heq
      obtain ⟨-, rfl, hskipped⟩ := heq
      exact of_decide_eq_true hskipped.symm
    · exact hs.1 client' root' hmem
  lookup {s root} client entryName status hs hlow :=
    hs.entry hlow (by simp) fun r hr => (eq_of_beq (show (root == r) = true from hr)).symm
  setUp {s root} client creates status hs hlow := by
    have hcreated : Quiet (if creates then s.record (.created (.temporary root s.uuids)) else s) := by
      split
      · exact hs.record (by simp) fun _ => rfl
      · exact hs
    cases creates <;>
      exact hcreated.entry hlow (by simp)
        fun r hr => (eq_of_beq (show (root == r) = true from hr)).symm
  record {s event} hwork hs := by
    refine hs.record ?_ fun root => ?_
    · rintro client root rfl
      simp [Event.isWork] at hwork
    · cases event with
      | operation client kind place status => cases kind <;> simp_all [Event.isWork, Operation.isWork, Event.isEntryOn]
      | _ => rfl
  report {s} root error hs := by
    refine ⟨fun client r hmem => ?_, hs.2.cons fun _ _ _ => rfl⟩
    rcases List.mem_cons.mp hmem with heq | hmem
    · simp at heq
    · have hr := hs.1 client r hmem
      rw [Session.reportError_numTimeouts]
      omega
  bootstrap hs := hs

/-! ### Runs -/

section

variable {ρ : Type} (cache : DiskCache) (loader : Loader) (backend : Backend ρ)

/-- An invariant of `compile_impl` is one of every run of requests. -/
theorem serveAll_rule {fallbackDisabled : Bool} {I : Session → Prop}
    (hrequest : ∀ (request : Request ρ) s, I s → Post (fun _ s => I s) (fun _ s => I s)
      (compileImpl cache fallbackDisabled loader backend request.loads request.name request.key request.input
        request.outcomes s))
    (requests : List (Request ρ)) {t : RuntimeState} (ht : I t.session) :
    I (serveAll cache fallbackDisabled loader backend requests t).session := by
  induction requests generalizing t with
  | nil => exact ht
  | cons request requests ih =>
      apply ih
      have hdone := hrequest request t.session ht
      dsimp only [serve, getOrCreate]
      rcases hrun : compileImpl cache fallbackDisabled loader backend request.loads request.name request.key
        request.input request.outcomes t.session with ⟨result, s⟩
      rw [hrun] at hdone
      have hs : I s := by cases result <;> exact hdone
      split
      · cases t.memCache request.key with
        | some kernel => exact ht
        | none => cases result <;> exact hs
      · exact hs

/-- In every run of requests whose cleanups do not time out, and whose bootstraps have no timeout in
the work of `build_loader` on the last root, the counter of a root is the number of I/O tasks that
timed out on it, and `entry` skips a root exactly when there were three before. A root that was
skipped is never touched again. -/
theorem timeouts_exact (requests : List (Request ρ))
    (hclean : ∀ event ∈ (serveAll cache false loader backend requests {}).session.log,
      event.isMiscounted cache.paths.length = false) :
    (∀ root, (serveAll cache false loader backend requests {}).session.numTimeouts root =
        lateTasks root (serveAll cache false loader backend requests {}).session.log) ∧
      ChecksExact (serveAll cache false loader backend requests {}).session.log ∧
      QuietAfterSkip (serveAll cache false loader backend requests {}).session.log := by
  have hnew : Exact cache ({} : RuntimeState).session := fun _ =>
    ⟨fun root => rfl, fun later client root skipped earlier h => by simp at h⟩
  have hquiet : Quiet ({} : RuntimeState).session :=
    ⟨fun client root h => by simp at h, fun later client root earlier h => by simp at h⟩
  obtain ⟨hcount, hchecks⟩ := serveAll_rule cache loader backend
    (fun request s => exact_compileImpl loader backend _ _ _ _ _) requests hnew hclean
  refine ⟨hcount, hchecks, ?_⟩
  exact (serveAll_rule cache loader backend
    (fun request s => quiet_requestInvariant.compileImpl loader backend _ _ _ _ _) requests hquiet).2

end

/-- A hit whose lookup times out on every root. -/
def lateLookup : Request Unit :=
  .sample true { RequestOutcomes.calm true with
    entry := fun _ => { EntryOutcomes.calm true with lookup := fun _ => { result := .ok true, late := true } } }

theorem timeouts_exact_lateLookup :
    (∀ root, (serveAll ⟨[bytes "/a"], by decide⟩ false .sample .sample (List.replicate 4 lateLookup) {}).session.numTimeouts
          root =
        lateTasks root
          (serveAll ⟨[bytes "/a"], by decide⟩ false .sample .sample (List.replicate 4 lateLookup) {}).session.log) ∧
      ChecksExact
        (serveAll ⟨[bytes "/a"], by decide⟩ false .sample .sample (List.replicate 4 lateLookup) {}).session.log ∧
      QuietAfterSkip
        (serveAll ⟨[bytes "/a"], by decide⟩ false .sample .sample (List.replicate 4 lateLookup) {}).session.log :=
  timeouts_exact ⟨[bytes "/a"], by decide⟩ .sample .sample (List.replicate 4 lateLookup) (by decide)

/-- An AICPU kernel, found on the root, whose bootstrap has a timeout when it writes the loader's
sources. -/
def lateLoaderWrite : Request Unit :=
  .sample true { RequestOutcomes.calm true with
    attempt := fun _ => { AttemptOutcomes.calm with
      probe := .calm true
      bootstrap := { loader := { LoaderOutcomes.calm with
        work := fun _ => { WorkOutcomes.calm with
          steps := fun _ => { StepOutcome.calm with io := { result := .ok (), late := true } } } } } } }

/-- A build that fails, and whose cleanup times out. -/
def lateCleanup : Request Unit :=
  .sample true { RequestOutcomes.calm false with
    attempt := fun _ => { AttemptOutcomes.calm with
      steps := fun _ => { StepOutcome.calm with io := { result := .error (bytes "no space") } }
      cleanup := { result := .ok (), late := true } } }

/-- With one root, two timeouts that leave the bootstrap disable it, and three timeouts of cleanups
do not. -/
theorem not_checksExact_lateLoaderWrite :
    ¬ ChecksExact
        (serveAll ⟨[bytes "/a"], by decide⟩ false .sample .sample (List.replicate 3 lateLoaderWrite) {}).session.log ∧
      ¬ ChecksExact
        (serveAll ⟨[bytes "/a"], by decide⟩ false .sample .sample (List.replicate 4 lateCleanup) {}).session.log := by
  constructor
  · intro h
    have hskipped := h [] .runtime 0 true
      ((serveAll ⟨[bytes "/a"], by decide⟩ false .sample .sample (List.replicate 3 lateLoaderWrite) {}).session.log.drop 1)
      (by decide)
    revert hskipped
    decide
  · intro h
    have htaken := h
      ((serveAll ⟨[bytes "/a"], by decide⟩ false .sample .sample (List.replicate 4 lateCleanup) {}).session.log.take 5)
      .runtime 0 false
      ((serveAll ⟨[bytes "/a"], by decide⟩ false .sample .sample (List.replicate 4 lateCleanup) {}).session.log.drop 6)
      (by decide +kernel)
    revert htaken
    decide +kernel

end DeepJit
