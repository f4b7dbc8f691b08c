import DeepJit.Runtime.RequestRules

/-!
# Removal of temporary directories

Which of the temporary directories that a request created and did not publish it removes. It should
remove those that nothing can still be using, which are those without a timed-out task or command.
Every directory is settled when the round that created it is over, and three kinds of rounds settle
it the wrong way: `entry` gives up a directory whose setup failed half way, without fallback the
handlers do not look at the error at all, and with fallback they take an error whose text speaks of
a command timeout for one.
-/

namespace DeepJit

/-! ### What a log says about a directory -/

inductive Mark where
  | created
  | published
  | removed
  /-- A task or a command in the directory timed out. -/
  | late
  /-- One of the three kinds: a setup that failed in time, without fallback a command that timed
  out, with fallback an error that was no timeout but speaks of one. -/
  | misjudged
deriving DecidableEq

def Event.marks (fallbackDisabled : Bool) (directory : Place) : Mark → Event → Bool
  | .created, .created place => place == directory
  | .published, .published place => place == directory
  | .removed, .removed place => place == directory
  | .late, .operation _ _ place .late => place == directory
  | .misjudged, .operation _ kind place (.failed what) =>
      place == directory && (kind == .setup || (!fallbackDisabled && mentionsCommandTimeout what))
  | .misjudged, .operation _ .command place .late => place == directory && fallbackDisabled
  | _, _ => false

def marked (fallbackDisabled : Bool) (directory : Place) (mark : Mark) (log : List Event) : Bool :=
  log.any (Event.marks fallbackDisabled directory mark)

/-- A directory that was created and not published is removed exactly when nothing in it timed out,
exactly when it was not misjudged. -/
def SettledAt (fallbackDisabled : Bool) (directory : Place) (log : List Event) : Prop :=
  marked fallbackDisabled directory .created log = true →
    marked fallbackDisabled directory .published log = false →
    ((marked fallbackDisabled directory .removed log = true ↔
      marked fallbackDisabled directory .late log = false) ↔
      marked fallbackDisabled directory .misjudged log = false)

def Event.place? : Event → Option Place
  | .operation _ _ place _ | .created place | .published place | .removed place => some place
  | .check .. | .report .. => none

/-- The directories of a log come from earlier calls of `get_uuid`. -/
def Known (s : Session) : Prop :=
  ∀ event ∈ s.log, ∀ root uuid, event.place? = some (.temporary root uuid) → uuid < s.uuids

/-- Between two rounds. -/
def Settled (fallbackDisabled : Bool) (s : Session) : Prop :=
  Known s ∧ ∀ root uuid, SettledAt fallbackDisabled (.temporary root uuid) s.log

/-- While a request works in a directory, which it has created and in which everything went well so
far. -/
def Open (fallbackDisabled : Bool) (directory : Place) (s : Session) : Prop :=
  Known s ∧ (∃ root uuid, directory = .temporary root uuid ∧ uuid < s.uuids) ∧
    (∀ root uuid, .temporary root uuid ≠ directory →
      SettledAt fallbackDisabled (.temporary root uuid) s.log) ∧
    ∀ mark, mark ≠ .created → marked fallbackDisabled directory mark s.log = false

section

variable {fallbackDisabled : Bool} {directory : Place} {s : Session}

@[simp] theorem marked_cons (mark : Mark) (event : Event) (log : List Event) :
    marked fallbackDisabled directory mark (event :: log) =
      (event.marks fallbackDisabled directory mark || marked fallbackDisabled directory mark log) := rfl

theorem marks_eq_false {event : Event} (h : event.place? ≠ some directory) (mark : Mark) :
    event.marks fallbackDisabled directory mark = false := by
  by_contra hmarks
  rw [Bool.not_eq_false] at hmarks
  apply h
  unfold Event.marks at hmarks
  split at hmarks <;> simp_all [Event.place?]

/-- Events at other places, and events without a place, settle nothing. -/
theorem SettledAt.cons {log : List Event} (h : SettledAt fallbackDisabled directory log)
    {event : Event} (hevent : event.place? ≠ some directory) :
    SettledAt fallbackDisabled directory (event :: log) := by
  unfold SettledAt
  simp only [marked_cons, marks_eq_false hevent, Bool.false_or]
  exact h

theorem Known.record (h : Known s) {event : Event}
    (hevent : ∀ root uuid, event.place? = some (.temporary root uuid) → uuid < s.uuids) :
    Known (s.record event) := by
  intro e he root uuid hplace
  rcases List.mem_cons.mp he with rfl | he
  · exact hevent root uuid hplace
  · exact h e he root uuid hplace

/-- Nothing is logged about a directory before it is named. -/
theorem Known.marked_eq_false (h : Known s) (fallbackDisabled : Bool) (root : Nat) {uuid : Nat}
    (huuid : s.uuids ≤ uuid) (mark : Mark) :
    marked fallbackDisabled (.temporary root uuid) mark s.log = false := by
  rw [marked, List.any_eq_false]
  intro event hevent hmarks
  by_cases hplace : event.place? = some (.temporary root uuid)
  · have hlt := h event hevent root uuid hplace
    omega
  · rw [marks_eq_false hplace] at hmarks
    simp at hmarks

theorem Settled.record (h : Settled fallbackDisabled s) {event : Event}
    (hevent : ∀ root uuid, event.place? ≠ some (.temporary root uuid)) :
    Settled fallbackDisabled (s.record event) :=
  ⟨h.1.record fun root uuid hplace => absurd hplace (hevent root uuid),
    fun root uuid => (h.2 root uuid).cons (hevent root uuid)⟩

theorem Settled.report (h : Settled fallbackDisabled s) (root : Nat) (error : Exn) :
    Settled fallbackDisabled (s.reportError root error) :=
  ⟨fun e he r uuid hplace => by
      rcases List.mem_cons.mp he with rfl | he
      · simp [Event.place?] at hplace
      · exact h.1 e he r uuid hplace,
    fun r uuid => (h.2 r uuid).cons (by simp [Event.place?])⟩

end

/-! ### Setting up, working in and leaving a directory -/

section

variable {fallbackDisabled : Bool} {client : Client} {s : Session}

theorem Known.setUp (h : Known s) (root : Nat) (creates : Bool) (status : Status) :
    Known (s.setUp client root creates status) := by
  intro event hevent r uuid hplace
  have hcase : event.place? = some (.temporary root s.uuids) ∨ event ∈ s.log := by
    simp only [Session.setUp, List.mem_cons] at hevent
    rcases hevent with rfl | hevent
    · exact .inl rfl
    · cases creates with
      | true =>
          rcases List.mem_cons.mp hevent with rfl | hevent
          · exact .inl rfl
          · exact .inr hevent
      | false => exact .inr hevent
  show uuid < s.uuids + 1
  rcases hcase with heq | hevent
  · rw [heq, Option.some.injEq, Place.temporary.injEq] at hplace
    omega
  · have hlt := h event hevent r uuid hplace
    omega

theorem settledAt_setUp {root r uuid : Nat}
    (h : SettledAt fallbackDisabled (.temporary r uuid) s.log)
    (hne : Place.temporary r uuid ≠ .temporary root s.uuids) (creates : Bool) (status : Status) :
    SettledAt fallbackDisabled (.temporary r uuid) (s.setUp client root creates status).log := by
  have hplace : some (Place.temporary root s.uuids) ≠ some (.temporary r uuid) := fun heq =>
    hne (Option.some.inj heq).symm
  cases creates with
  | true =>
      have hcreated := h.cons (show (Event.created (.temporary root s.uuids)).place? ≠ _ from hplace)
      exact hcreated.cons hplace
  | false => exact h.cons hplace

/-- A setup that fails settles its directory, wrongly if it created it and did not time out. -/
theorem Settled.setUp (h : Settled fallbackDisabled s) {error : Exn} {status : Status}
    (hraised : Raised fallbackDisabled error .setup status) (root : Nat) (creates : Bool) :
    Settled fallbackDisabled (s.setUp client root creates status) := by
  refine ⟨h.1.setUp root creates status, fun r uuid => ?_⟩
  by_cases hplace : Place.temporary r uuid = .temporary root s.uuids
  · rw [hplace]
    have hfresh := h.1.marked_eq_false fallbackDisabled root (Nat.le_refl _)
    cases hraised <;> cases creates <;> simp [SettledAt, Session.setUp, Event.marks, hfresh]
  · exact settledAt_setUp (h.2 r uuid) hplace creates status

theorem open_setUp (h : Settled fallbackDisabled s) (root : Nat) :
    Open fallbackDisabled (.temporary root s.uuids) (s.setUp client root true .done) := by
  refine ⟨h.1.setUp root true .done, ⟨root, s.uuids, rfl, Nat.lt_succ_self _⟩, fun r uuid hne => ?_,
    fun mark hmark => ?_⟩
  · exact settledAt_setUp (h.2 r uuid) hne true .done
  · have hfresh := h.1.marked_eq_false fallbackDisabled root (Nat.le_refl _) mark
    cases mark <;> simp_all [Session.setUp, Event.marks]

variable {directory : Place}

/-- An event in the open directory that marks nothing. -/
theorem Open.record (h : Open fallbackDisabled directory s) {event : Event}
    (hplace : event.place? = some directory)
    (hmarks : ∀ mark, mark ≠ .created → event.marks fallbackDisabled directory mark = false) :
    Open fallbackDisabled directory (s.record event) := by
  obtain ⟨hknown, ⟨root, uuid, rfl, huuid⟩, hothers, hnone⟩ := h
  refine ⟨hknown.record fun r u heq => ?_, ⟨root, uuid, rfl, huuid⟩, fun r u hne => ?_,
    fun mark hmark => ?_⟩
  · rw [hplace, Option.some.injEq, Place.temporary.injEq] at heq
    exact heq.2 ▸ huuid
  · refine (hothers r u hne).cons ?_
    rw [hplace]
    exact fun heq => hne (Option.some.inj heq).symm
  · rw [Session.record_log, marked_cons, hmarks mark hmark, hnone mark hmark, Bool.or_self]

theorem Open.succeeded (h : Open fallbackDisabled directory s) {events : List Event}
    (hevents : Succeeded client directory events) :
    Open fallbackDisabled directory (s.recordAll events) := by
  induction events with
  | nil => exact h
  | cons event events ih =>
      obtain ⟨kind, hwork, rfl⟩ := hevents event (by simp)
      have hrest := ih fun event hevent => hevents event (by simp [hevent])
      refine Open.record (s := s.recordAll events) hrest rfl fun mark _ => ?_
      cases mark <;> cases kind <;> rfl

/-- Leaving the open directory: whatever is logged in it last decides whether it is settled. -/
theorem Open.close (h : Open fallbackDisabled directory s) {s' : Session} (events : List Event)
    (hlog : s'.log = events ++ s.log) (huuids : s'.uuids = s.uuids)
    (hplace : ∀ event ∈ events, ∀ place, event.place? = some place → place = directory)
    (hdone : marked fallbackDisabled directory .published events = false →
      ((marked fallbackDisabled directory .removed events = true ↔
          marked fallbackDisabled directory .late events = false) ↔
        marked fallbackDisabled directory .misjudged events = false)) : Settled fallbackDisabled s' := by
  obtain ⟨hknown, ⟨root, uuid, rfl, huuid⟩, hothers, hnone⟩ := h
  have hmarked : ∀ mark, mark ≠ .created →
      marked fallbackDisabled (.temporary root uuid) mark s'.log =
      marked fallbackDisabled (.temporary root uuid) mark events := by
    intro mark hmark
    rw [hlog, marked, List.any_append, ← marked, ← marked, hnone mark hmark, Bool.or_false]
  refine ⟨fun event hevent r u heq => ?_, fun r u => ?_⟩
  · rw [huuids]
    rw [hlog] at hevent
    rcases List.mem_append.mp hevent with hevent | hevent
    · have hdirectory := hplace event hevent _ heq
      rw [Place.temporary.injEq] at hdirectory
      exact hdirectory.2 ▸ huuid
    · exact hknown event hevent r u heq
  · by_cases hne : Place.temporary r u = .temporary root uuid
    · rw [hne]
      intro _ hpublished
      rw [hmarked .published (by decide)] at hpublished
      rw [hmarked .removed (by decide), hmarked .late (by decide), hmarked .misjudged (by decide)]
      exact hdone hpublished
    · rw [hlog]
      clear hlog hmarked hdone
      induction events with
      | nil => exact hothers r u hne
      | cons event events ih =>
          refine (ih fun e he => hplace e (List.mem_cons_of_mem _ he)).cons fun heq => ?_
          exact hne (hplace event (by simp) _ heq)

/-- The decision of the handlers against what the last operation in the directory was. -/
theorem raised_judged {error : Exn} {kind : Operation} {status : Status}
    (hraised : Raised fallbackDisabled error kind status) (hwork : kind.isWork = true)
    (client : Client) (directory : Place) :
    ((!fallbackDisabled && leavesWork error) = false ↔
        (Event.operation client kind directory status).marks fallbackDisabled directory .late = false) ↔
      (Event.operation client kind directory status).marks fallbackDisabled directory .misjudged = false := by
  cases hraised with
  | late hio henabled => cases kind <;> simp_all [Event.marks, leavesWork, Exn.isTimeout, Operation.isIoTask]
  | expired hmentions => cases fallbackDisabled <;> simp [Event.marks, leavesWork, Exn.isTimeout, Exn.what, hmentions]
  | failed kind what =>
      have hsetup : (kind == .setup) = false := by
        cases kind <;> first | rfl | simp [Operation.isWork] at hwork
      simp [Event.marks, leavesWork, Exn.isTimeout, Exn.what, hsetup]

/-- Cleanups that do what they should, in time. -/
def IoTask.Succeeds (task : IoTask Unit) : Prop := task.result = .ok () ∧ task.late = false

theorem IoTask.Succeeds.run {task : IoTask Unit} (h : task.Succeeds) (fallbackDisabled : Bool) :
    runInIothread fallbackDisabled task = .ok () := by
  simp [runInIothread, h.1, h.2]

/-- After a failure the directory is settled by the handler and the destructor together. -/
theorem settled_failed {cache : DiskCache} {first : Nat} {entry : DiskCacheEntry cache first}
    (hhit : entry.hit = false)
    (hcommitted : entry.committed = false) (h : Open fallbackDisabled entry.path s) {error : Exn}
    {s₁ s₂ : Session} (hfailed : Failed fallbackDisabled client entry.path s error s₁)
    (hreported : s₂ = s₁ ∨ s₂ = s₁.reportError entry.root error) {cleanup : IoTask Unit}
    (hcleanup : cleanup.Succeeds) :
    Settled fallbackDisabled
      ((entry.abandon (!fallbackDisabled && leavesWork error)).destroy fallbackDisabled client cleanup s₂) := by
  obtain ⟨events, kind, status, hevents, hraised, hwork, rfl⟩ := hfailed
  have hopen := h.succeeded hevents
  have hjudged := raised_judged hraised hwork client entry.path
  obtain ⟨reports, hplaces, hlog, huuids⟩ : ∃ reports : List Event, (∀ event ∈ reports, event.place? = none) ∧
      s₂.log = reports ++ [.operation client kind entry.path status] ++ (s.recordAll events).log ∧
      s₂.uuids = (s.recordAll events).uuids := by
    rcases hreported with rfl | rfl
    · exact ⟨[], by simp, rfl, rfl⟩
    · exact ⟨[.report entry.root error.isTimeout], by simp [Event.place?], rfl, rfl⟩
  have hunmarked : ∀ mark, marked fallbackDisabled entry.path mark
      (reports ++ [.operation client kind entry.path status]) =
        (Event.operation client kind entry.path status).marks fallbackDisabled entry.path mark := by
    intro mark
    have hreports : reports.any (Event.marks fallbackDisabled entry.path mark) = false := by
      rw [List.any_eq_false]
      intro event hevent
      rw [marks_eq_false (by rw [hplaces event hevent]; simp)]
      simp
    rw [marked, List.any_append, hreports]
    simp
  have hremoved : (Event.operation client kind entry.path status).marks fallbackDisabled entry.path .removed = false := by
    cases kind <;> cases status <;> rfl
  have hplace : ∀ event ∈ reports ++ [.operation client kind entry.path status], ∀ place,
      event.place? = some place → place = entry.path := by
    intro event hevent place heq
    rcases List.mem_append.mp hevent with hevent | hevent
    · simp [hplaces event hevent] at heq
    · rw [List.mem_singleton] at hevent
      subst hevent
      exact (Option.some.inj heq).symm
  by_cases habandoned : (!fallbackDisabled && leavesWork error) = true
  · have hdestroy : (entry.abandon (!fallbackDisabled && leavesWork error)).destroy fallbackDisabled client cleanup s₂ =
        s₂ := by
      simp [DiskCacheEntry.destroy, DiskCacheEntry.abandon, habandoned]
    rw [hdestroy]
    refine hopen.close _ hlog huuids hplace fun _ => ?_
    rw [hunmarked, hunmarked, hunmarked, hremoved]
    rw [habandoned] at hjudged
    simpa using hjudged
  · have hdestroy : (entry.abandon (!fallbackDisabled && leavesWork error)).destroy fallbackDisabled client cleanup s₂ =
        (s₂.record (.operation client .cleanup entry.path .done)).record (.removed entry.path) := by
      rw [Bool.not_eq_true] at habandoned
      simp [DiskCacheEntry.destroy, DiskCacheEntry.abandon, habandoned, hhit, hcommitted,
        hcleanup.run, Status.of]
    rw [hdestroy]
    refine hopen.close (.removed entry.path :: .operation client .cleanup entry.path .done ::
      (reports ++ [.operation client kind entry.path status])) (by simp [hlog]) huuids ?_ fun _ => ?_
    · intro event hevent place heq
      simp only [List.mem_cons] at hevent
      rcases hevent with rfl | rfl | hevent
      · exact (Option.some.inj heq).symm
      · exact (Option.some.inj heq).symm
      · exact hplace event hevent place heq
    · rw [Bool.not_eq_true] at habandoned
      rw [habandoned] at hjudged
      simp only [marked_cons, hunmarked]
      simpa [Event.marks] using hjudged

end

/-! ### The rounds of a request -/

section

variable {cache : DiskCache} {fallbackDisabled : Bool} {client : Client}

theorem settled_entryInvariant (fallbackDisabled : Bool) (client : Client) :
    EntryInvariant fallbackDisabled client (Settled fallbackDisabled) where
  check root hs := hs.record (by simp [Event.place?])
  lookup hs _ _ := hs.record (by simp [Event.place?])
  lookupFailed hs _ _ _ := (hs.record (by simp [Event.place?])).report _ _
  setupFailed creates hs _ _ hraised := (hs.setUp hraised _ creates).report _ _

/-- A hit, or a miss whose directory is open. -/
def ObtainedSettled (fallbackDisabled : Bool) (first : Nat) (entry : DiskCacheEntry cache first)
    (s : Session) : Prop :=
  (entry.hit = true ∧ (∃ name, entry.path = .cache entry.root name) ∧ Settled fallbackDisabled s) ∨
    (entry.hit = false ∧ entry.committed = false ∧ entry.abandoned = false ∧
      (∃ name, entry.commitPath = some (.cache entry.root name)) ∧
        Open fallbackDisabled entry.path s)

theorem settled_entry (client : Client) (tag digest : Bytes) (o : EntryOutcomes) (first : Nat)
    {s : Session} (hs : Settled fallbackDisabled s) :
    Post (ObtainedSettled fallbackDisabled first) (fun _ s => Settled fallbackDisabled s)
      (cache.entry fallbackDisabled client tag digest o first s) := by
  refine (entry_rule (settled_entryInvariant fallbackDisabled client) tag digest o first hs).imp ?_ ?_
  · rintro entry s' (⟨hs', hhit, hpath⟩ | ⟨s₁, shared, hs₁, -, rfl, hentry⟩)
    · exact .inl ⟨hhit, ⟨_, hpath⟩, hs'⟩
    · refine .inr ⟨by rw [hentry], by rw [hentry], by rw [hentry], ⟨_, by rw [hentry]⟩, ?_⟩
      have hpath : entry.path = .temporary entry.root s₁.uuids := by rw [hentry]
      rw [hpath]
      exact open_setUp hs₁ entry.root
  · rintro error s' (⟨-, hs'⟩ | ⟨-, s₁, root, status, hs₁, -, ⟨-, rfl⟩ | ⟨hraised, creates, rfl⟩⟩)
    · exact hs'
    · exact hs₁.record (by simp [Event.place?])
    · exact hs₁.setUp hraised root creates

theorem Settled.succeeded {s : Session} (h : Settled fallbackDisabled s) {place : Place}
    (hplace : ∃ root name, place = .cache root name) {events : List Event}
    (hevents : Succeeded client place events) :
    Settled fallbackDisabled (s.recordAll events) := by
  obtain ⟨root, name, rfl⟩ := hplace
  induction events with
  | nil => exact h
  | cons event events ih =>
      obtain ⟨kind, -, rfl⟩ := hevents event (by simp)
      have hrest := ih fun event hevent => hevents event (by simp [hevent])
      exact Settled.record (s := s.recordAll events) hrest (by simp [Event.place?])

theorem Settled.failed {s s' : Session} (h : Settled fallbackDisabled s) {place : Place}
    (hplace : ∃ root name, place = .cache root name) {error : Exn}
    (hfailed : Failed fallbackDisabled client place s error s') : Settled fallbackDisabled s' := by
  obtain ⟨events, kind, status, hevents, -, -, rfl⟩ := hfailed
  refine (h.succeeded hplace hevents).record ?_
  obtain ⟨root, name, rfl⟩ := hplace
  simp [Event.place?]

theorem destroy_of_hit {first : Nat} {entry : DiskCacheEntry cache first} (hhit : entry.hit = true)
    (cleanup : IoTask Unit) (s : Session) :
    entry.destroy fallbackDisabled client cleanup s = s := by
  simp [DiskCacheEntry.destroy, hhit]

/-- An error in an entry that is not private any more changes no directory. -/
theorem handled_hit {first : Nat} {cleanup : Nat → IoTask Unit} {error : Exn}
    {out : DiskCacheEntry cache first × Session} (hhit : out.1.hit = true)
    (hs : Settled fallbackDisabled out.2) :
    Handled fallbackDisabled client cleanup (fun _ => Settled fallbackDisabled)
      (fun _ => Settled fallbackDisabled) error out := by
  rw [Handled]
  split
  · rw [destroy_of_hit hhit]
    exact hs
  · have habandon : (out.1.abandon (leavesWork error)).hit = true := hhit
    dsimp only
    rw [destroy_of_hit habandon]
    split <;> exact hs.report _ _

/-- An error in a private directory settles it. -/
theorem handled_miss {first : Nat} {cleanup : Nat → IoTask Unit}
    (hcleanup : ∀ root, (cleanup root).Succeeds)
    {entry : DiskCacheEntry cache first} (hhit : entry.hit = false)
    (hcommitted : entry.committed = false)
    {s s' : Session} (hopen : Open fallbackDisabled entry.path s) {error : Exn}
    (hfailed : Failed fallbackDisabled client entry.path s error s') {abandoned : Bool}
    (habandoned : fallbackDisabled = true → abandoned = false) :
    Handled fallbackDisabled client cleanup (fun _ => Settled fallbackDisabled)
      (fun _ => Settled fallbackDisabled) error (entry.abandon abandoned, s') := by
  rw [Handled]
  cases fallbackDisabled with
  | true =>
      have hdone := settled_failed hhit hcommitted hopen hfailed (.inl rfl) (hcleanup entry.root)
      rw [if_pos rfl, habandoned rfl]
      exact hdone
  | false =>
      have hdone := settled_failed hhit hcommitted hopen hfailed (.inr rfl) (hcleanup entry.root)
      rw [if_neg (by decide)]
      dsimp only
      split <;> exact hdone

/-- A build of a miss publishes or removes its directory, or fails in it. -/
theorem settled_build (client : Client) {first : Nat} (o : WorkOutcomes) (steps : List Step)
    {cleanup : Nat → IoTask Unit}
    (hcleanup : ∀ root, (cleanup root).Succeeds) {entry : DiskCacheEntry cache first} (hhit : entry.hit = false)
    (hcommitted : entry.committed = false) (habandoned : entry.abandoned = false)
    (hcommit : ∃ name, entry.commitPath = some (.cache entry.root name)) {s : Session}
    (hopen : Open fallbackDisabled entry.path s) :
    Post (fun _ out => out.1.hit = true ∧ (∃ root name, out.1.path = .cache root name) ∧
      Settled fallbackDisabled out.2)
      (Handled fallbackDisabled client cleanup (fun _ => Settled fallbackDisabled) (fun _ => Settled fallbackDisabled))
      (build fallbackDisabled client o steps entry s) := by
  refine (build_spec fallbackDisabled client o steps hhit hcommitted s).imp ?_ ?_
  · rintro _ ⟨entry', s'⟩ ⟨rfl, events, publication, hevents, rfl⟩
    obtain ⟨name, hname⟩ := hcommit
    refine ⟨rfl, ⟨entry.root, name, by rw [DiskCacheEntry.publish, hname]; rfl⟩, ?_⟩
    refine (hopen.succeeded hevents).close [publicationEvent entry.path publication] rfl rfl ?_ ?_
    · intro event hevent place heq
      rw [List.mem_singleton] at hevent
      subst hevent
      cases publication <;> exact (Option.some.inj heq).symm
    · cases publication <;> simp [marked, publicationEvent, Event.marks]
  · rintro error ⟨entry', s'⟩ ⟨hfailed, abandoned, rfl, hb⟩
    exact handled_miss hcleanup hhit hcommitted hopen hfailed fun h => (hb h).trans habandoned

/-- `build_loader` leaves every directory settled. -/
theorem settled_buildLoader (cache : DiskCache) (loader : Loader) (o : LoaderOutcomes)
    (hcleanup : ∀ root, (o.work root).cleanup.Succeeds)
    {s : Session} (hs : Settled fallbackDisabled s) :
    Post (fun _ s => Settled fallbackDisabled s) (fun _ s => Settled fallbackDisabled s)
      (buildLoader cache fallbackDisabled loader o s) := by
  rw [buildLoader]
  cases o.prepare with
  | some what => exact hs
  | none =>
      refine run_rule (fun _ => Settled fallbackDisabled) (ObtainedSettled fallbackDisabled)
        (fun first s hs => settled_entry .loader _ _ _ first hs) ?_ hs
      rintro first entry s (⟨hhit, ⟨name, hpath⟩, hs⟩ | ⟨hhit, hcommitted, habandoned, hcommit, hopen⟩)
      · rw [loaderWork, if_pos hhit]
        have hsteps := runSteps_spec fallbackDisabled .loader entry.path (o.work entry.root).steps [.io] 0 s
        rcases hrun : runSteps fallbackDisabled .loader entry.path (o.work entry.root).steps [.io] 0 s with ⟨result, s₁⟩
        rw [hrun] at hsteps
        cases result with
        | error error =>
            have hhandled : Handled fallbackDisabled .loader (fun root => (o.work root).cleanup)
                (fun _ => Settled fallbackDisabled) (fun _ => Settled fallbackDisabled) error (entry, s₁) :=
              handled_hit hhit (hs.failed ⟨_, name, hpath⟩ hsteps)
            exact hhandled
        | ok _ =>
            obtain ⟨events, hevents, rfl⟩ := hsteps
            show Settled fallbackDisabled (entry.destroy fallbackDisabled .loader _ _)
            rw [destroy_of_hit hhit]
            exact hs.succeeded ⟨_, name, hpath⟩ hevents
      · rw [loaderWork, if_neg (by simp [hhit])]
        have hbuilt := settled_build .loader (o.work entry.root)
          [.io, .command (loader.command entry.path) fun _ _ => none, .io] hcleanup hhit hcommitted habandoned hcommit
          hopen
        rcases hrun : build fallbackDisabled .loader (o.work entry.root)
          [.io, .command (loader.command entry.path) fun _ _ => none, .io] entry s with ⟨result, entry', s₁⟩
        rw [hrun] at hbuilt
        cases result with
        | error error => exact hbuilt
        | ok _ =>
            obtain ⟨hhit', -, hs'⟩ := hbuilt
            show Settled fallbackDisabled (entry'.destroy fallbackDisabled .loader _ _)
            rw [destroy_of_hit hhit']
            exact hs'

theorem settled_load {ρ : Type} (cache : DiskCache) (loader : Loader) (backend : Backend ρ)
    {place : Place} (hplace : ∃ root name, place = .cache root name) (o : AttemptOutcomes)
    (hcleanup : ∀ root, (o.bootstrap.loader.work root).cleanup.Succeeds) {s : Session} (hs : Settled fallbackDisabled s) :
    Post (fun _ s => Settled fallbackDisabled s) (fun _ s => Settled fallbackDisabled s)
      (load cache fallbackDisabled loader backend place o s) := by
  refine load_rule (fun s events hs hevents => hs.succeeded hplace hevents)
    (fun s error s' hs hfailed => hs.failed hplace hfailed) o (fun s hs => ?_) hs
  refine (makeBootstrap_rule (E := fun _ => Settled fallbackDisabled) (fun _ _ => id) (fun _ => id) o.bootstrap
    (fun s hs => settled_buildLoader cache loader _ hcleanup hs) hs).imp (fun _ _ => id) fun error s' hs' => ?_
  obtain ⟨root, name, rfl⟩ := hplace
  exact hs'.record (by simp [Event.place?])

/-- The cleanups of a request, and of the bootstraps in it, succeed in time. -/
def RequestOutcomes.CleanupSucceeds (o : RequestOutcomes) : Prop :=
  ∀ root, (o.attempt root).cleanup.Succeeds ∧
    ∀ r, ((o.attempt root).bootstrap.loader.work r).cleanup.Succeeds

/-- `compile_impl` leaves every directory settled. -/
theorem settled_compileImpl {ρ : Type} (cache : DiskCache) (loader : Loader) (backend : Backend ρ)
    (loads : Bool) (name key : Bytes)
    (input : ρ) (o : RequestOutcomes) (hcleanup : o.CleanupSucceeds) {s : Session}
    (hs : Settled fallbackDisabled s) :
    Post (fun _ s => Settled fallbackDisabled s) (fun _ s => Settled fallbackDisabled s)
      (compileImpl cache fallbackDisabled loader backend loads name key input o s) := by
  refine run_rule (fun _ => Settled fallbackDisabled) (ObtainedSettled fallbackDisabled)
    (fun first s hs => settled_entry .runtime _ _ _ first hs) (fun first entry s hs => ?_) hs
  have hbuilt : Post
      (fun _ out => out.1.hit = true ∧ (∃ root name, out.1.path = .cache root name) ∧
        Settled fallbackDisabled out.2)
      (Handled fallbackDisabled .runtime (fun root => (o.attempt root).cleanup) (fun _ => Settled fallbackDisabled)
        (fun _ => Settled fallbackDisabled))
      (buildEntry fallbackDisabled backend input o entry s) := by
    rw [buildEntry]
    rcases hs with ⟨hhit, ⟨name, hpath⟩, hs⟩ | ⟨hhit, hcommitted, habandoned, hcommit, hopen⟩
    · rw [if_pos hhit]
      exact ⟨hhit, ⟨_, name, hpath⟩, hs⟩
    · rw [if_neg (by simp [hhit])]
      exact settled_build .runtime _ _ (fun root => (hcleanup root).1) hhit hcommitted habandoned hcommit hopen
  rw [requestWork]
  rcases hrun : buildEntry fallbackDisabled backend input o entry s with ⟨result, entry', s₁⟩
  rw [hrun] at hbuilt
  cases result with
  | error error => exact hbuilt
  | ok _ =>
      obtain ⟨hhit, hpath, hs₁⟩ := hbuilt
      have hdestroy : ∀ s, Settled fallbackDisabled s → Settled fallbackDisabled
          (entry'.destroy fallbackDisabled .runtime (o.attempt entry'.root).cleanup s) := by
        intro s hs
        rw [destroy_of_hit hhit]
        exact hs
      dsimp only at hpath hs₁ ⊢
      split
      · have hloaded := settled_load cache loader backend hpath (o.attempt entry'.root)
          (hcleanup entry'.root).2 hs₁
        rcases hload : load cache fallbackDisabled loader backend entry'.path (o.attempt entry'.root) s₁ with
          ⟨result, s₂⟩
        rw [hload] at hloaded
        cases result with
        | error error =>
            have hhandled : Handled fallbackDisabled .runtime (fun root => (o.attempt root).cleanup)
                (fun _ => Settled fallbackDisabled) (fun _ => Settled fallbackDisabled) error (entry', s₂) :=
              handled_hit hhit hloaded
            exact hhandled
        | ok _ => exact hdestroy s₂ hloaded
      · exact hdestroy s₁ hs₁

/-- A backend that runs one command. -/
def Backend.oneCommand : Backend Unit where
  compile := fun _ _ => [.command (bytes "nvcc") fun _ _ => none]
  usesDiskCache := false
  load := fun _ => []

def commandOutcome (outcome : CommandOutcome) : RequestOutcomes :=
  { RequestOutcomes.calm false with
    attempt := fun _ => { AttemptOutcomes.calm with steps := fun _ => { StepOutcome.calm with command := outcome } } }

/-- A setup that creates its directory and then fails to set its permissions. -/
def halfSetup : RequestOutcomes :=
  { RequestOutcomes.calm false with
    entry := fun _ => { EntryOutcomes.calm false with
      setup := fun _ =>
        { task := { result := .error (bytes "failed to set permissions") }, createdOnFailure := true } } }

end

end DeepJit
