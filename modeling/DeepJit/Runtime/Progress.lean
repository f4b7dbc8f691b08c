import DeepJit.Runtime.RequestRules

/-!
# Progress of a request

The roots of the entries that a request obtains grow strictly, because neither pass of `entry` looks
in front of the first root that the loop gives it. The directory that is returned or loaded from is
the entry of the last of these roots: it had its marker when the lookup found it, or when the commit
of the build ended.
-/

namespace DeepJit

/-! ### Obtained entries -/

/-- The root of the entry that a request obtains with this event: `entry` returns right after it. -/
def Event.obtainedRoot : Event → Option Nat
  | .operation .runtime .lookup place .done => some place.root
  | .operation .runtime .setup place .done => some place.root
  | _ => none

/-- The roots of the entries that a request obtains, in order. -/
def obtainedRoots (events : List Event) : List Nat := events.reverse.filterMap Event.obtainedRoot

theorem obtainedRoots_append (later earlier : List Event) :
    obtainedRoots (later ++ earlier) = obtainedRoots earlier ++ obtainedRoots later := by
  rw [obtainedRoots, List.reverse_append, List.filterMap_append]
  rfl

theorem obtainedRoots_singleton (event : Event) :
    obtainedRoots [event] = event.obtainedRoot.toList := by
  rw [obtainedRoots, List.reverse_singleton, List.filterMap_cons]
  cases event.obtainedRoot <;> rfl

/-- Between the states no entry is obtained. -/
def Session.ObtainsNone (s s' : Session) : Prop :=
  ∃ events, s'.log = events ++ s.log ∧ obtainedRoots events = []

namespace Session.ObtainsNone

variable {s s₁ s₂ : Session}

theorem refl (s : Session) : s.ObtainsNone s := ⟨[], rfl, rfl⟩

theorem trans (h₁ : s.ObtainsNone s₁) (h₂ : s₁.ObtainsNone s₂) : s.ObtainsNone s₂ := by
  obtain ⟨events₁, hlog₁, hnone₁⟩ := h₁
  obtain ⟨events₂, hlog₂, hnone₂⟩ := h₂
  refine ⟨events₂ ++ events₁, ?_, ?_⟩
  · rw [hlog₂, hlog₁, List.append_assoc]
  · rw [obtainedRoots_append, hnone₁, hnone₂]
    rfl

theorem record (h : s.ObtainsNone s₁) {event : Event} (hevent : event.obtainedRoot = none) :
    s.ObtainsNone (s₁.record event) := by
  refine h.trans ⟨[event], rfl, ?_⟩
  rw [obtainedRoots_singleton, hevent]
  rfl

theorem report (h : s.ObtainsNone s₁) (root : Nat) (error : Exn) :
    s.ObtainsNone (s₁.reportError root error) := by
  refine h.trans ⟨[.report root error.isTimeout], rfl, ?_⟩
  rfl

end Session.ObtainsNone

theorem obtainedRoot_of_error {fallbackDisabled : Bool} {error : Exn} {kind : Operation}
    {status : Status} (h : Raised fallbackDisabled error kind status) (client : Client)
    (performed : Operation) (place : Place) :
    (Event.operation client performed place status).obtainedRoot = none := by
  cases h <;> cases client <;> cases performed <;> rfl

theorem obtainedRoot_of_isWork {kind : Operation} (h : kind.isWork = true) (client : Client)
    (place : Place) (status : Status) :
    (Event.operation client kind place status).obtainedRoot = none := by
  cases kind with
  | lookup => simp [Operation.isWork] at h
  | setup => simp [Operation.isWork] at h
  | io | command | call | bootstrap | commit | cleanup => cases client <;> rfl

theorem Session.ObtainsNone.recordAll {s s₁ : Session} (h : s.ObtainsNone s₁) {client : Client} {place : Place}
    {events : List Event} (hevents : Succeeded client place events) :
    s.ObtainsNone (s₁.recordAll events) := by
  refine h.trans ⟨events, rfl, ?_⟩
  rw [obtainedRoots, List.filterMap_eq_nil_iff]
  intro event hevent
  obtain ⟨kind, hwork, rfl⟩ := hevents event (List.mem_reverse.mp hevent)
  exact obtainedRoot_of_isWork hwork client place .done

theorem Session.ObtainsNone.failed {s s₁ s₂ : Session} (h : s.ObtainsNone s₁) {fallbackDisabled : Bool}
    {client : Client} {place : Place} {error : Exn}
    (hfailed : Failed fallbackDisabled client place s₁ error s₂) : s.ObtainsNone s₂ := by
  obtain ⟨events, kind, status, hevents, -, hwork, rfl⟩ := hfailed
  exact (h.recordAll hevents).record (obtainedRoot_of_isWork hwork client place status)

theorem Session.ObtainsNone.setUp {s s₁ : Session} (h : s.ObtainsNone s₁) {fallbackDisabled : Bool}
    {error : Exn} {status : Status} (hraised : Raised fallbackDisabled error .setup status)
    (client : Client) (root : Nat) (creates : Bool) :
    s.ObtainsNone (s₁.setUp client root creates status) := by
  have hnone := obtainedRoot_of_error hraised client .setup (.temporary root s₁.uuids)
  have hsetup : s₁.ObtainsNone (s₁.setUp client root creates status) := by
    cases creates with
    | true =>
        refine ⟨[.operation client .setup (.temporary root s₁.uuids) status,
          .created (.temporary root s₁.uuids)], rfl, ?_⟩
        have hcreated : (Event.created (.temporary root s₁.uuids)).obtainedRoot = none := rfl
        simp [obtainedRoots, hnone, hcreated]
    | false =>
        refine ⟨[.operation client .setup (.temporary root s₁.uuids) status], rfl, ?_⟩
        rw [obtainedRoots_singleton, hnone]
        rfl
  exact h.trans hsetup

theorem Session.ObtainsNone.destroy {s s₁ : Session} (h : s.ObtainsNone s₁) {cache : DiskCache} {first : Nat}
    (entry : DiskCacheEntry cache first) (fallbackDisabled : Bool) (client : Client)
    (cleanup : IoTask Unit) :
    s.ObtainsNone (entry.destroy fallbackDisabled client cleanup s₁) := by
  have hcleanup : ∀ status, (Event.operation client .cleanup entry.path status).obtainedRoot = none := by
    intro status
    cases client <;> rfl
  rw [DiskCacheEntry.destroy]
  split
  · exact h
  · cases runInIothread fallbackDisabled cleanup with
    | ok _ => exact (h.record (hcleanup _)).record rfl
    | error error => exact h.record (hcleanup _)

/-! ### What `entry` obtains -/

section

variable {cache : DiskCache} (fallbackDisabled : Bool) {first : Nat} (entryName : Bytes)

/-- The first pass obtains the hit that it returns. -/
theorem lookupPass_obtains (lookup : Nat → IoTask Bool) (roots : List (Root cache first))
    (failed : List Nat) {s₀ s : Session} (hs : s₀.ObtainsNone s) :
    Post
      (fun out s' => match out.1 with
        | none => s₀.ObtainsNone s'
        | some i => ∃ s₁, s₀.ObtainsNone s₁ ∧
            s' = s₁.record (.operation .runtime .lookup (.cache i entryName) .done))
      (fun _ s' => s₀.ObtainsNone s')
      (DiskCache.lookupPass fallbackDisabled .runtime entryName lookup roots failed s) := by
  induction roots generalizing failed s with
  | nil => exact hs
  | cons i rest ih =>
      rw [DiskCache.lookupPass]
      by_cases hskipped : 3 ≤ s.numTimeouts i
      · simp only [Session.checkTimeouts, hskipped, decide_true, if_true]
        exact ih failed (hs.record rfl)
      · have hcheck : s₀.ObtainsNone (s.record (.check .runtime i false)) := hs.record rfl
        simp only [Session.checkTimeouts, hskipped, decide_false, Bool.false_eq_true, if_false]
        cases htask : runInIothread fallbackDisabled (lookup i) with
        | ok hit =>
            cases hit with
            | true => exact ⟨_, hcheck, rfl⟩
            | false => exact ih failed (hcheck.record rfl)
        | error error =>
            have hraised := raised_of_runInIothread .lookup rfl htask
            have hnone := obtainedRoot_of_error hraised .runtime .lookup (.cache i entryName)
            cases fallbackDisabled with
            | true => exact hcheck.record hnone
            | false => exact ih _ ((hcheck.record hnone).report i error)

/-- The second pass obtains the miss that it returns. -/
theorem setupPass_obtains (o : EntryOutcomes) (failed : List Nat) (roots : List (Root cache first))
    {s₀ s : Session} (hs : s₀.ObtainsNone s) :
    Post (EntryMissed .runtime s₀.ObtainsNone entryName) (fun _ s' => s₀.ObtainsNone s')
      (DiskCache.setupPass fallbackDisabled .runtime entryName o failed roots s) := by
  induction roots generalizing s with
  | nil => exact hs
  | cons i rest ih =>
      rw [DiskCache.setupPass]
      by_cases hpassed : (decide (3 ≤ s.numTimeouts i) || failed.contains i.val) = true
      · simp only [Session.checkTimeouts, hpassed, if_true]
        exact ih (hs.record rfl)
      · have hlow : s.numTimeouts i < 3 := by
          simp only [Bool.or_eq_true, decide_eq_true_eq, not_or] at hpassed
          omega
        have hcheck : s₀.ObtainsNone (s.record (.check .runtime i (decide (3 ≤ s.numTimeouts i)))) := hs.record rfl
        simp only [Session.checkTimeouts, hpassed]
        cases htask : runInIothread fallbackDisabled (o.setup i).task with
        | ok shared => exact ⟨_, shared, hcheck, hlow, rfl, rfl⟩
        | error error =>
            have hsetup := hcheck.setUp (raised_of_runInIothread .setup rfl htask) .runtime i
              (o.setup i).creates
            cases fallbackDisabled with
            | true => exact hsetup
            | false => exact ih (hsetup.report i error)

/-- A hit: the state before its lookup, and the entry. -/
def EntryHit (I : Session → Prop) (entry : DiskCacheEntry cache first) (s : Session) : Prop :=
  ∃ s₁, I s₁ ∧ s = s₁.record (.operation .runtime .lookup (.cache entry.root entryName) .done) ∧
    entry = { root := entry.root, hit := true, path := .cache entry.root entryName }

theorem entry_obtains (tag digest : Bytes) (o : EntryOutcomes) {s₀ s : Session}
    (hs : s₀.ObtainsNone s) :
    Post
      (fun entry s' => EntryHit (tag ++ bytes "." ++ digest) s₀.ObtainsNone entry s' ∨
        EntryMissed .runtime s₀.ObtainsNone (tag ++ bytes "." ++ digest) entry s')
      (fun _ s' => s₀.ObtainsNone s') (cache.entry fallbackDisabled .runtime tag digest o first s) := by
  unfold DiskCache.entry
  by_cases htag : isValidTag tag = true
  · simp only [htag, Bool.not_true, Bool.false_eq_true, if_false]
    have hlookup := lookupPass_obtains fallbackDisabled (tag ++ bytes "." ++ digest)
      o.lookup (cache.roots first) [] hs
    rcases hpass : DiskCache.lookupPass fallbackDisabled .runtime (tag ++ bytes "." ++ digest) o.lookup
      (cache.roots first) [] s with ⟨result, s₁⟩
    rw [hpass] at hlookup
    match result with
    | .error error => exact hlookup
    | .ok (some i, _) =>
        obtain ⟨s₂, hs₂, rfl⟩ := hlookup
        exact .inl ⟨s₂, hs₂, rfl, rfl⟩
    | .ok (none, failed) =>
        exact (setupPass_obtains _ _ o failed (cache.roots first) hlookup).imp (fun _ _ => .inr) fun _ _ => id
  · simp only [htag, Bool.not_false, if_true]
    exact hs

end

/-! ### What the rest of a request obtains -/

section

variable {cache : DiskCache} (fallbackDisabled : Bool)

theorem obtainsNone_entryInvariant (s₀ : Session) :
    EntryInvariant fallbackDisabled .loader s₀.ObtainsNone where
  check _ hs := hs.record rfl
  lookup hs _ _ := hs.record rfl
  lookupFailed hs _ _ _ := (Session.ObtainsNone.record hs rfl).report _ _
  setupFailed creates hs _ _ hraised := (Session.ObtainsNone.setUp hs hraised .loader _ creates).report _ _

theorem Session.ObtainsNone.steps {s₀ s : Session} (h : s₀.ObtainsNone s) (client : Client)
    (place : Place) (o : Nat → StepOutcome) (steps : List Step) :
    Post (fun _ s' => s₀.ObtainsNone s') (fun _ s' => s₀.ObtainsNone s')
      (runSteps fallbackDisabled client place o steps 0 s) := by
  refine (runSteps_spec fallbackDisabled client place o steps 0 s).imp ?_ fun error s' => h.failed
  intro _ s' hsteps
  obtain ⟨events, hevents, rfl⟩ := hsteps
  exact h.recordAll hevents

theorem Session.ObtainsNone.handled {s₀ s : Session} (h : s₀.ObtainsNone s) {first : Nat}
    (client : Client) (cleanup : Nat → IoTask Unit) (error : Exn) (entry : DiskCacheEntry cache first) :
    Handled fallbackDisabled client cleanup (fun _ => s₀.ObtainsNone) (fun _ => s₀.ObtainsNone) error (entry, s) := by
  rw [Handled]
  split
  · exact h.destroy entry _ client _
  · have hhandled := (h.report entry.root error).destroy (entry.abandon (leavesWork error)) fallbackDisabled client
      (cleanup entry.root)
    dsimp only
    split <;> exact hhandled

theorem Session.ObtainsNone.commit {s₀ s : Session} (h : s₀.ObtainsNone s) {first : Nat} (client : Client)
    (entry : DiskCacheEntry cache first) (task : IoTask Publication) :
    s₀.ObtainsNone (entry.commit fallbackDisabled client task s).2.2 := by
  have hcommit : ∀ status, (Event.operation client .commit entry.path status).obtainedRoot = none :=
    obtainedRoot_of_isWork rfl client entry.path
  rw [DiskCacheEntry.commit]
  split
  · exact h
  · cases runInIothread fallbackDisabled task with
    | error error => exact h.record (hcommit _)
    | ok publication => cases publication <;> exact (h.record (hcommit _)).record rfl

theorem Session.ObtainsNone.build {s₀ s : Session} (h : s₀.ObtainsNone s) {first : Nat} (client : Client)
    (o : WorkOutcomes) (steps : List Step) (entry : DiskCacheEntry cache first) :
    s₀.ObtainsNone (build fallbackDisabled client o steps entry s).2.2 := by
  have hsteps := h.steps fallbackDisabled client entry.path o.steps steps
  rw [DeepJit.build]
  rcases hrun : runSteps fallbackDisabled client entry.path o.steps steps 0 s with ⟨result, s₁⟩
  rw [hrun] at hsteps
  cases result with
  | error error => exact hsteps
  | ok _ => exact Session.ObtainsNone.commit fallbackDisabled hsteps client entry o.commit

theorem loaderWork_obtains (loader : Loader) (o : LoaderOutcomes) {s₀ s : Session} {first : Nat}
    (entry : DiskCacheEntry cache first) (hs : s₀.ObtainsNone s) :
    s₀.ObtainsNone (loaderWork cache fallbackDisabled loader o first entry s).2.2 := by
  rw [loaderWork]
  by_cases hhit : entry.hit = true
  · rw [if_pos hhit]
    have hsteps := hs.steps fallbackDisabled .loader entry.path (o.work entry.root).steps [.io]
    rcases hrun : runSteps fallbackDisabled .loader entry.path (o.work entry.root).steps [.io] 0 s with ⟨result, s₁⟩
    rw [hrun] at hsteps
    cases result <;> exact hsteps
  · rw [if_neg hhit]
    have hbuilt := hs.build fallbackDisabled .loader (o.work entry.root)
      [.io, .command (loader.command entry.path) fun _ _ => none, .io] entry
    rcases hrun : build fallbackDisabled .loader (o.work entry.root)
      [.io, .command (loader.command entry.path) fun _ _ => none, .io] entry s with ⟨result, entry', s₁⟩
    rw [hrun] at hbuilt
    cases result <;> exact hbuilt

/-- The loader of a bootstrap obtains entries of its own only. -/
theorem buildLoader_obtains (loader : Loader) (o : LoaderOutcomes) {s₀ s : Session}
    (hs : s₀.ObtainsNone s) :
    Post (fun _ s' => s₀.ObtainsNone s') (fun _ s' => s₀.ObtainsNone s')
      (buildLoader cache fallbackDisabled loader o s) := by
  rw [buildLoader]
  cases o.prepare with
  | some what => exact hs
  | none =>
      refine run_rule (fun _ => s₀.ObtainsNone) (fun _ _ => s₀.ObtainsNone) ?_ ?_ hs
      · intro first s hs
        refine (entry_rule (obtainsNone_entryInvariant fallbackDisabled s₀) _ _ _ first hs).imp ?_ ?_
        · rintro entry s' (⟨hs', -, -⟩ | ⟨s₁, shared, hs₁, -, rfl, -⟩)
          · exact hs'
          · exact hs₁.trans ⟨[.operation .loader .setup (.temporary entry.root s₁.uuids) .done,
              .created (.temporary entry.root s₁.uuids)], rfl, rfl⟩
        · rintro error s' (⟨-, hs'⟩ | ⟨-, s₁, root, status, hs₁, -, ⟨-, rfl⟩ | ⟨hraised, creates, rfl⟩⟩)
          · exact hs'
          · exact hs₁.record rfl
          · exact hs₁.setUp hraised .loader root creates
      · intro first entry s hs
        have hwork := loaderWork_obtains fallbackDisabled loader o entry hs
        rcases hrun : loaderWork cache fallbackDisabled loader o first entry s with ⟨result, entry', s₁⟩
        rw [hrun] at hwork
        cases result with
        | error error =>
            rw [post_error]
            exact Session.ObtainsNone.handled fallbackDisabled hwork .loader _ error entry'
        | ok value => exact Session.ObtainsNone.destroy hwork entry' _ .loader _

theorem load_obtains {ρ : Type} (loader : Loader) (backend : Backend ρ) (place : Place)
    (o : AttemptOutcomes) {s₀ s : Session} (hs : s₀.ObtainsNone s) :
    Post (fun _ s' => s₀.ObtainsNone s') (fun _ s' => s₀.ObtainsNone s')
      (load cache fallbackDisabled loader backend place o s) := by
  refine load_rule (fun s₁ events hs₁ hevents => hs₁.recordAll hevents)
    (fun s₁ error s' hs₁ hfailed => hs₁.failed hfailed) o (fun s₁ hs₁ => ?_) hs
  refine (makeBootstrap_rule (E := fun _ => s₀.ObtainsNone) (fun _ _ => id) (fun _ => id) o.bootstrap
    (fun s hs => buildLoader_obtains fallbackDisabled loader _ hs) hs₁).imp (fun _ _ => id) fun error s' hs' => ?_
  exact hs'.record (obtainedRoot_of_isWork rfl .runtime place _)

end

/-! ### Where a result comes from -/

/-- A build that ends normally ran all its steps in the directory of its entry, and then
committed it. -/
theorem build_done {cache : DiskCache} {first : Nat} {fallbackDisabled : Bool} {client : Client}
    {o : WorkOutcomes} {steps : List Step} {entry entry' : DiskCacheEntry cache first} {s s' : Session}
    (hhit : entry.hit = false) (hcommitted : entry.committed = false)
    (h : build fallbackDisabled client o steps entry s = (.ok (), entry', s')) :
    entry' = entry.publish ∧ ∃ compiled publication,
      runSteps fallbackDisabled client entry.path o.steps steps 0 s = (.ok (), s.recordAll compiled) ∧
      s' = ((s.recordAll compiled).record (.operation client .commit entry.path .done)).record
        (publicationEvent entry.path publication) := by
  have hsteps := runSteps_spec fallbackDisabled client entry.path o.steps steps 0 s
  rw [build] at h
  rcases hrun : runSteps fallbackDisabled client entry.path o.steps steps 0 s with ⟨result, s₁⟩
  rw [hrun] at hsteps h
  cases result with
  | error error => simp at h
  | ok _ =>
      obtain ⟨compiled, -, rfl⟩ := hsteps
      simp only [DiskCacheEntry.commit, hhit, hcommitted, Bool.or_self, Bool.false_eq_true, if_false] at h
      cases hcommit : runInIothread fallbackDisabled o.commit with
      | error error => simp [hcommit] at h
      | ok publication =>
          simp only [hcommit, Prod.mk.injEq, true_and] at h
          obtain ⟨hentry, hs⟩ := h
          refine ⟨hentry.symm, compiled, publication, rfl, hs.symm.trans ?_⟩
          cases publication <;> rfl

section

variable {ρ : Type} (cache : DiskCache) (fallbackDisabled : Bool) (loader : Loader)
  (backend : Backend ρ) (input : ρ) (o : RequestOutcomes) (entryName : Bytes)

/-- Between the states, `cache/<entry name>` on the root carried its marker: the lookup found it
there, or the commit ended, which puts the directory with its marker in that place or finds the
marker of another writer's there. The commit came after the whole compilation, in the directory
that was set up for it. Afterwards no other entry is obtained. -/
inductive CarriedMarker (root : Nat) (s s' : Session) : Prop where
  | found (before : Session) (hbefore : s.log <:+ before.log)
      (hafter : (before.record (.operation .runtime .lookup (.cache root entryName) .done)).ObtainsNone s')
  | committed (before : Session) (compiled : List Event) (publication : Publication)
      (hbefore : s.log <:+ before.log)
      (hcompiled : runSteps fallbackDisabled .runtime (.temporary root before.uuids) (o.attempt root).steps
          (backend.compile input (.temporary root before.uuids)) 0 (before.setUp .runtime root true .done) =
        (.ok (), (before.setUp .runtime root true .done).recordAll compiled))
      (hafter : ((((before.setUp .runtime root true .done).recordAll compiled).record
          (.operation .runtime .commit (.temporary root before.uuids) .done)).record
          (publicationEvent (.temporary root before.uuids) publication)).ObtainsNone s')

variable {cache loader entryName}

theorem CarriedMarker.mono {root : Nat} {s s₁ s₂ : Session}
    (h : CarriedMarker fallbackDisabled backend input o entryName root s s₁) (hs : s₁.ObtainsNone s₂) :
    CarriedMarker fallbackDisabled backend input o entryName root s s₂ := by
  cases h with
  | found before hbefore hafter => exact .found before hbefore (hafter.trans hs)
  | committed before compiled publication hbefore hcompiled hafter =>
      exact .committed before compiled publication hbefore hcompiled (hafter.trans hs)

/-- An entry that was obtained after `s₀`. -/
def ObtainedAfter (entryName : Bytes) (s₀ : Session) (first : Nat) (entry : DiskCacheEntry cache first)
    (s : Session) : Prop :=
  EntryHit entryName (fun s₁ => s₀.log <:+ s₁.log) entry s ∨
    EntryMissed .runtime (fun s₁ => s₀.log <:+ s₁.log) entryName entry s

/-- The directory of an entry once it is a hit, and its marker. -/
theorem buildEntry_carriedMarker {first : Nat} {entry : DiskCacheEntry cache first} {s₀ s : Session}
    (h : ObtainedAfter entryName s₀ first entry s) :
    Post
      (fun _ out => (out.1.hit = true ∧ out.1.root = entry.root ∧ out.1.path = .cache entry.root entryName) ∧
        CarriedMarker fallbackDisabled backend input o entryName entry.root s₀ out.2 ∧ s.ObtainsNone out.2)
      (fun _ out => out.1.root = entry.root ∧ s.ObtainsNone out.2)
      (buildEntry fallbackDisabled backend input o entry s) := by
  rw [buildEntry]
  cases h with
  | inl hfound =>
      obtain ⟨before, hbefore, hs, hentry⟩ := hfound
      have hhit : entry.hit = true := by rw [hentry]
      have hpath : entry.path = .cache entry.root entryName := by rw [hentry]
      rw [if_pos hhit]
      exact ⟨⟨hhit, rfl, hpath⟩, .found before hbefore (hs ▸ .refl _), .refl s⟩
  | inr hmissed =>
      obtain ⟨before, shared, hbefore, -, hs, hentry⟩ := hmissed
      have hhit : entry.hit = false := by rw [hentry]
      have hcommitted : entry.committed = false := by rw [hentry]
      have hpath : entry.path = .temporary entry.root before.uuids := by rw [hentry]
      have hcommit : entry.commitPath = some (.cache entry.root entryName) := by rw [hentry]
      rw [if_neg (by simp [hhit])]
      have hspec := build_spec fallbackDisabled .runtime (o.attempt entry.root).toWorkOutcomes
        (backend.compile input entry.path) hhit hcommitted s
      have hnone := Session.ObtainsNone.build fallbackDisabled (.refl s) .runtime
        (o.attempt entry.root).toWorkOutcomes (backend.compile input entry.path) entry
      rcases hrun : build fallbackDisabled .runtime (o.attempt entry.root).toWorkOutcomes
        (backend.compile input entry.path) entry s with ⟨result, entry', s'⟩
      rw [hrun] at hspec hnone
      cases result with
      | error error =>
          obtain ⟨-, abandoned, hentry', -⟩ := hspec
          refine ⟨?_, hnone⟩
          show entry'.root = entry.root
          rw [show entry' = entry.abandon abandoned from hentry']
          rfl
      | ok _ =>
          obtain ⟨rfl, compiled, publication, hcompiled, hs'⟩ := build_done hhit hcommitted hrun
          refine ⟨⟨rfl, rfl, ?_⟩, ?_, hnone⟩
          · simp [DiskCacheEntry.publish, hcommit]
          · rw [hpath, hs] at hcompiled hs'
            exact .committed before compiled publication hbefore hcompiled (hs' ▸ .refl _)

theorem requestWork_carriedMarker (loads : Bool) {first : Nat} {entry : DiskCacheEntry cache first}
    {s₀ s : Session} (h : ObtainedAfter entryName s₀ first entry s) :
    Post
      (fun place out => (out.1.hit = true ∧ out.1.root = entry.root ∧ place = .cache entry.root entryName) ∧
        CarriedMarker fallbackDisabled backend input o entryName entry.root s₀ out.2 ∧ s.ObtainsNone out.2)
      (fun _ out => out.1.root = entry.root ∧ s.ObtainsNone out.2)
      (requestWork cache fallbackDisabled loader backend loads input o first entry s) := by
  have hbuilt := buildEntry_carriedMarker fallbackDisabled backend input o h
  rw [requestWork]
  rcases hrun : buildEntry fallbackDisabled backend input o entry s with ⟨result, entry', s₁⟩
  rw [hrun] at hbuilt
  cases result with
  | error error => exact hbuilt
  | ok _ =>
      obtain ⟨⟨hhit, hroot, hpath⟩, hmarker, hnone⟩ := hbuilt
      dsimp only at hhit hroot hpath hmarker hnone ⊢
      by_cases hloads : loads = true
      · rw [if_pos hloads]
        have hloaded : Post (fun _ s' => s₁.ObtainsNone s') (fun _ s' => s₁.ObtainsNone s')
            (load cache fallbackDisabled loader backend entry'.path (o.attempt entry'.root) s₁) :=
          load_obtains fallbackDisabled loader backend entry'.path (o.attempt entry'.root) (.refl s₁)
        rcases hload : load cache fallbackDisabled loader backend entry'.path (o.attempt entry'.root) s₁ with
          ⟨result, s₂⟩
        rw [hload] at hloaded
        cases result with
        | error error => exact ⟨hroot, hnone.trans hloaded⟩
        | ok _ => exact ⟨⟨hhit, hroot, hpath⟩, hmarker.mono _ _ _ _ hloaded, hnone.trans hloaded⟩
      · rw [if_neg hloads]
        exact ⟨⟨hhit, hroot, hpath⟩, hmarker, hnone⟩

/-! ### The loop -/

/-- Between the states the entries on these roots are obtained, in this order. -/
def Session.Obtains (s s' : Session) (roots : List Nat) : Prop :=
  ∃ events, s'.log = events ++ s.log ∧ obtainedRoots events = roots

theorem Session.Obtains.append {s s₁ s₂ : Session} {roots₁ roots₂ : List Nat} (h₁ : s.Obtains s₁ roots₁)
    (h₂ : s₁.Obtains s₂ roots₂) : s.Obtains s₂ (roots₁ ++ roots₂) := by
  obtain ⟨events₁, hlog₁, rfl⟩ := h₁
  obtain ⟨events₂, hlog₂, rfl⟩ := h₂
  refine ⟨events₂ ++ events₁, ?_, obtainedRoots_append events₂ events₁⟩
  rw [hlog₂, hlog₁, List.append_assoc]

theorem Session.Obtains.none {s s₁ s₂ : Session} {roots : List Nat} (h₁ : s.Obtains s₁ roots)
    (h₂ : s₁.ObtainsNone s₂) : s.Obtains s₂ roots := by
  rw [← List.append_nil roots]
  exact h₁.append h₂

/-- Strictly increasing roots below the bound were obtained. -/
def Progressed (s₀ : Session) (bound : Nat) (s : Session) : Prop :=
  ∃ roots, s₀.Obtains s roots ∧ roots.Pairwise (· < ·) ∧ ∀ root ∈ roots, root < bound

/-- The same, and the entry on this root is the last one. -/
def ProgressedAt (s₀ : Session) (root : Nat) (s : Session) : Prop :=
  ∃ roots, s₀.Obtains s (roots ++ [root]) ∧ (roots ++ [root]).Pairwise (· < ·)

theorem Progressed.obtain {s₀ s s₁ s₂ : Session} {bound root : Nat} (h : Progressed s₀ bound s)
    (hnone : s.ObtainsNone s₁) (hobtains : s₁.Obtains s₂ [root]) (hroot : bound ≤ root) :
    ProgressedAt s₀ root s₂ := by
  obtain ⟨roots, hroots, hsorted, hbound⟩ := h
  refine ⟨roots, (hroots.none hnone).append hobtains, ?_⟩
  rw [List.pairwise_append]
  refine ⟨hsorted, List.pairwise_singleton _ _, fun earlier hearlier later hlater => ?_⟩
  rw [List.mem_singleton.mp hlater]
  exact Nat.lt_of_lt_of_le (hbound earlier hearlier) hroot

theorem le_of_sorted {roots : List Nat} {root : Nat} (h : (roots ++ [root]).Pairwise (· < ·)) :
    ∀ earlier ∈ roots ++ [root], earlier ≤ root := by
  intro earlier hearlier
  rw [List.pairwise_append] at h
  rcases List.mem_append.mp hearlier with hmem | hmem
  · exact Nat.le_of_lt (h.2.2 earlier hmem root List.mem_cons_self)
  · exact Nat.le_of_eq (List.mem_singleton.mp hmem)

theorem ProgressedAt.progressed {s₀ s : Session} {root : Nat} (h : ProgressedAt s₀ root s) :
    Progressed s₀ (root + 1) s := by
  obtain ⟨roots, hroots, hsorted⟩ := h
  exact ⟨_, hroots, hsorted, fun earlier hearlier => Nat.lt_succ_of_le (le_of_sorted hsorted earlier hearlier)⟩

theorem ProgressedAt.none {s₀ s s₁ : Session} {root : Nat} (h : ProgressedAt s₀ root s)
    (hnone : s.ObtainsNone s₁) : ProgressedAt s₀ root s₁ := by
  obtain ⟨roots, hroots, hsorted⟩ := h
  exact ⟨roots, hroots.none hnone, hsorted⟩

theorem Progressed.mono {s₀ s s₁ : Session} {bound bound₁ : Nat} (h : Progressed s₀ bound s)
    (hnone : s.ObtainsNone s₁) (hbound : bound ≤ bound₁) : Progressed s₀ bound₁ s₁ := by
  obtain ⟨roots, hroots, hsorted, hlast⟩ := h
  exact ⟨roots, hroots.none hnone, hsorted, fun root hroot => Nat.lt_of_lt_of_le (hlast root hroot) hbound⟩

theorem Progressed.suffix {s₀ s : Session} {bound : Nat} (h : Progressed s₀ bound s) : s₀.log <:+ s.log := by
  obtain ⟨roots, ⟨events, hlog, -⟩, -⟩ := h
  exact ⟨events, hlog.symm⟩

theorem entry_progresses (tag digest : Bytes) (e : EntryOutcomes) {first : Nat} {s₀ s : Session}
    (hfirst : first ≤ cache.paths.length) (hs : Progressed s₀ first s) :
    Post
      (fun entry s' => ProgressedAt s₀ entry.root s' ∧
        ObtainedAfter (tag ++ bytes "." ++ digest) s₀ first entry s')
      (fun _ s' => Progressed s₀ cache.paths.length s')
      (cache.entry fallbackDisabled .runtime tag digest e first s) := by
  have hsuffix : ∀ s₁, s.ObtainsNone s₁ → s₀.log <:+ s₁.log := by
    intro s₁ hnone
    exact (hs.mono hnone (Nat.le_refl first)).suffix
  refine (entry_obtains fallbackDisabled tag digest e (.refl s)).imp ?_ ?_
  · intro entry s' hobtained
    have hroot := entry.root.2.1
    cases hobtained with
    | inl hfound =>
        obtain ⟨s₁, hnone, hs', hentry⟩ := hfound
        refine ⟨hs.obtain hnone ?_ hroot, .inl ⟨s₁, hsuffix s₁ hnone, hs', hentry⟩⟩
        rw [hs']
        exact ⟨[.operation .runtime .lookup (.cache entry.root (tag ++ bytes "." ++ digest)) .done], rfl, rfl⟩
    | inr hmissed =>
        obtain ⟨s₁, shared, hnone, hlow, hs', hentry⟩ := hmissed
        refine ⟨hs.obtain hnone ?_ hroot, .inr ⟨s₁, shared, hsuffix s₁ hnone, hlow, hs', hentry⟩⟩
        rw [hs']
        exact ⟨[.operation .runtime .setup (.temporary entry.root s₁.uuids) .done,
          .created (.temporary entry.root s₁.uuids)], rfl, rfl⟩
  · exact fun error s' hnone => hs.mono hnone hfirst

/-- A request obtains entries on strictly increasing roots, and a directory that it returns is the
entry of the last of them. -/
theorem compileImpl_progresses (cache : DiskCache) (loader : Loader) (loads : Bool) (name key : Bytes) (s : Session) :
    Post
      (fun place s' => ∃ root < cache.paths.length, ProgressedAt s root s' ∧
        place = .cache root (name ++ bytes "." ++ key) ∧
        CarriedMarker fallbackDisabled backend input o (name ++ bytes "." ++ key) root s s')
      (fun _ s' => Progressed s cache.paths.length s')
      (compileImpl cache fallbackDisabled loader backend loads name key input o s) := by
  have hnew : Progressed s 0 s := ⟨[], ⟨[], rfl, rfl⟩, List.Pairwise.nil, by simp⟩
  refine run_rule (fun first s' => first ≤ cache.paths.length ∧ Progressed s first s')
    (fun first entry s' => ProgressedAt s entry.root s' ∧
      ObtainedAfter (name ++ bytes "." ++ key) s first entry s') ?_ ?_ ⟨Nat.zero_le _, hnew⟩
  · rintro first s' ⟨hfirst, hs'⟩
    exact entry_progresses fallbackDisabled name key (o.entry first) hfirst hs'
  · rintro first entry s' ⟨hprogressed, hobtained⟩
    refine (requestWork_carriedMarker fallbackDisabled backend input o loads hobtained).imp ?_ ?_
    · rintro place ⟨entry', s''⟩ ⟨⟨hhit, hroot, hplace⟩, hmarker, hnone⟩
      dsimp only at hhit hmarker hnone ⊢
      rw [DiskCacheEntry.destroy, hhit]
      exact ⟨entry.root, entry.root.2.2, hprogressed.none hnone, hplace, hmarker⟩
    · rintro error ⟨entry', s''⟩ ⟨hroot, hnone⟩
      dsimp only at hroot hnone
      have hlast := entry.root.2.2
      rw [Handled]
      split
      · exact hprogressed.progressed.mono (hnone.destroy _ _ _ _) hlast
      · have hhandled := hprogressed.progressed.mono ((hnone.report entry'.root error).destroy
          (entry'.abandon (leavesWork error)) fallbackDisabled .runtime (o.attempt entry'.root).cleanup)
          (Nat.le_refl _)
        dsimp only
        split
        · exact hhandled.mono (.refl _) hlast
        · rw [hroot]
          rw [hroot] at hhandled
          exact ⟨hlast, hhandled⟩

end

/-! ### The memory cache -/

section

variable {t : RuntimeState} {key : Bytes} {factory : Session → Except Exn Place × Session}

theorem getOrCreate_of_absent (h : t.memCache key = none) :
    (getOrCreate t key factory).1 = (factory t.session).1 ∧
      (getOrCreate t key factory).2.session = (factory t.session).2 := by
  rw [getOrCreate, h]
  rcases factory t.session with ⟨result, s⟩
  cases result <;> exact ⟨rfl, rfl⟩

theorem getOrCreate_error {error : Exn} (h : (getOrCreate t key factory).1 = .error error) :
    t.memCache key = none ∧ (getOrCreate t key factory).2.memCache = t.memCache := by
  rw [getOrCreate] at h ⊢
  cases hfound : t.memCache key with
  | some kernel => simp [hfound] at h
  | none =>
      rcases hcall : factory t.session with ⟨result, s⟩
      cases result with
      | error error => exact ⟨rfl, rfl⟩
      | ok kernel => simp [hfound, hcall] at h

theorem getOrCreate_memCache_of_ne {key' : Bytes} (h : key' ≠ key) :
    (getOrCreate t key factory).2.memCache key' = t.memCache key' := by
  rw [getOrCreate]
  cases t.memCache key with
  | some kernel => rfl
  | none =>
      rcases factory t.session with ⟨result, s⟩
      cases result with
      | error error => rfl
      | ok kernel => exact Function.update_of_ne h _ _

end

section

variable {ρ : Type} (cache : DiskCache) (fallbackDisabled : Bool) (loader : Loader)
  (backend : Backend ρ)

/-- A request that is not served from memory runs `compile_impl`. -/
theorem serve_of_absent (request : Request ρ) (t : RuntimeState)
    (habsent : request.loads = true → t.memCache request.key = none) :
    (serve cache fallbackDisabled loader backend request t).1 =
        (compileImpl cache fallbackDisabled loader backend request.loads request.name request.key request.input
          request.outcomes t.session).1 ∧
      (serve cache fallbackDisabled loader backend request t).2.session =
        (compileImpl cache fallbackDisabled loader backend request.loads request.name request.key request.input
          request.outcomes t.session).2 := by
  rw [serve]
  by_cases hloads : request.loads = true
  · rw [if_pos hloads]
    exact getOrCreate_of_absent (habsent hloads)
  · rw [if_neg hloads]
    exact ⟨rfl, rfl⟩

theorem serve_error_memCache {request : Request ρ} {t : RuntimeState} {error : Exn}
    (h : (serve cache fallbackDisabled loader backend request t).1 = .error error) :
    (request.loads = true → t.memCache request.key = none) ∧
      (serve cache fallbackDisabled loader backend request t).2.memCache = t.memCache := by
  rw [serve] at h ⊢
  by_cases hloads : request.loads = true
  · rw [if_pos hloads] at h ⊢
    have hfailed := getOrCreate_error h
    exact ⟨fun _ => hfailed.1, hfailed.2⟩
  · rw [if_neg hloads]
    exact ⟨fun h => absurd h hloads, rfl⟩

/-- Requests with other keys leave the kernel of a key alone. -/
theorem serveAll_memCache_of_ne (requests : List (Request ρ)) (t : RuntimeState) {key : Bytes}
    (h : ∀ request ∈ requests, request.key ≠ key) :
    (serveAll cache fallbackDisabled loader backend requests t).memCache key = t.memCache key := by
  induction requests generalizing t with
  | nil => rfl
  | cons request requests ih =>
      have hfirst : (serve cache fallbackDisabled loader backend request t).2.memCache key = t.memCache key := by
        rw [serve]
        by_cases hloads : request.loads = true
        · rw [if_pos hloads]
          exact getOrCreate_memCache_of_ne fun heq => h request List.mem_cons_self heq.symm
        · rw [if_neg hloads]
      rw [← hfirst]
      exact ih _ fun later hlater => h later (List.mem_cons_of_mem _ hlater)

/-- A request obtains entries on strictly increasing roots, so that it makes at most as many
attempts as there are roots. The directory that it returns, or loads the kernel from, is the entry
of its own name and key on the last of them, which carried the marker. After an error the memory
cache is as it was before, so that the next request with the key starts from the disk, unless it
looks into the memory cache and the failing request, which did not, left a kernel there. -/
theorem request_progress (input : ρ) (o : RequestOutcomes) :
    (∀ (loads : Bool) (name key : Bytes) (s : Session),
      ∃ roots, s.Obtains (compileImpl cache fallbackDisabled loader backend loads name key input o s).2 roots ∧
        roots.Pairwise (· < ·) ∧ (∀ root ∈ roots, root < cache.paths.length) ∧
        roots.length ≤ cache.paths.length ∧
        ∀ place, (compileImpl cache fallbackDisabled loader backend loads name key input o s).1 = .ok place →
          ∃ root, roots.getLast? = some root ∧ place = .cache root (name ++ bytes "." ++ key) ∧
            CarriedMarker fallbackDisabled backend input o (name ++ bytes "." ++ key) root s
              (compileImpl cache fallbackDisabled loader backend loads name key input o s).2) ∧
    ∀ (request : Request ρ) (t : RuntimeState) (error : Exn),
      (serve cache fallbackDisabled loader backend request t).1 = .error error →
      (serve cache fallbackDisabled loader backend request t).2.memCache = t.memCache ∧
      ∀ (between : List (Request ρ)) (later : Request ρ), (∀ other ∈ between, other.key ≠ request.key) →
        later.key = request.key →
        (request.loads = true ∨ later.loads = false ∨ t.memCache request.key = none) →
        ∀ t', serveAll cache fallbackDisabled loader backend between
            (serve cache fallbackDisabled loader backend request t).2 = t' →
          (serve cache fallbackDisabled loader backend later t').1 =
              (compileImpl cache fallbackDisabled loader backend later.loads later.name later.key later.input
                later.outcomes t'.session).1 ∧
            (serve cache fallbackDisabled loader backend later t').2.session =
              (compileImpl cache fallbackDisabled loader backend later.loads later.name later.key later.input
                later.outcomes t'.session).2 := by
  refine ⟨?_, ?_⟩
  · intro loads name key s
    have hlength : ∀ roots : List Nat, roots.Pairwise (· < ·) → (∀ root ∈ roots, root < cache.paths.length) →
        roots.length ≤ cache.paths.length := by
      intro roots hsorted hbound
      have hdistinct : roots.Nodup := hsorted.imp fun hlt => Nat.ne_of_lt hlt
      have hsubset : roots ⊆ List.range cache.paths.length := fun root hroot => List.mem_range.mpr (hbound root hroot)
      simpa using hdistinct.length_le_of_subset hsubset
    have hprogress := compileImpl_progresses fallbackDisabled backend input o cache loader loads name key s
    rcases hrun : compileImpl cache fallbackDisabled loader backend loads name key input o s with ⟨result, s'⟩
    rw [hrun] at hprogress
    cases result with
    | error error =>
        obtain ⟨roots, hroots, hsorted, hbound⟩ := hprogress
        exact ⟨roots, hroots, hsorted, hbound, hlength roots hsorted hbound, fun place h => by simp at h⟩
    | ok place =>
        obtain ⟨root, hroot, ⟨roots, hroots, hsorted⟩, hplace, hmarker⟩ := hprogress
        have hbound : ∀ earlier ∈ roots ++ [root], earlier < cache.paths.length := by
          intro earlier hearlier
          have hle := le_of_sorted hsorted earlier hearlier
          omega
        refine ⟨roots ++ [root], hroots, hsorted, hbound, hlength _ hsorted hbound, ?_⟩
        intro place' h
        obtain rfl : place = place' := by simpa using h
        exact ⟨root, by simp, hplace, hmarker⟩
  · intro request t error hfailed
    have hmemory := serve_error_memCache cache fallbackDisabled loader backend hfailed
    refine ⟨hmemory.2, ?_⟩
    rintro between later hothers hkey hfrom t' rfl
    apply serve_of_absent
    intro hloads
    rw [hkey, serveAll_memCache_of_ne cache fallbackDisabled loader backend between _ hothers, hmemory.2]
    rcases hfrom with hload | hnot | habsent
    · exact hmemory.1 hload
    · simp [hnot] at hloads
    · exact habsent

/-- Hits on both roots, of which the first one fails to load. -/
def corruptFirst : RequestOutcomes :=
  { RequestOutcomes.calm true with
    attempt := fun root => { AttemptOutcomes.calm with
      load := fun _ => { StepOutcome.calm with
        io := { result := if root = 0 then .error (bytes "file changed during read") else .ok () } } } }

theorem request_progress_corruptFirst :
    ∃ roots, Session.Obtains {} (compileImpl ⟨[bytes "/a", bytes "/b"], by decide⟩ false .sample .sample true
        (bytes "kernel") (bytes "0") () corruptFirst {}).2 roots ∧
      roots.Pairwise (· < ·) ∧ roots.getLast? = some 1 ∧
      CarriedMarker false .sample () corruptFirst (bytes "kernel" ++ bytes "." ++ bytes "0") 1 {}
        (compileImpl ⟨[bytes "/a", bytes "/b"], by decide⟩ false .sample .sample true
          (bytes "kernel") (bytes "0") () corruptFirst {}).2 := by
  obtain ⟨roots, hroots, hsorted, -, -, hplace⟩ :=
    (request_progress ⟨[bytes "/a", bytes "/b"], by decide⟩ false .sample .sample () corruptFirst).1 true
      (bytes "kernel") (bytes "0") {}
  obtain ⟨root, hlast, hcache, hmarker⟩ :=
    hplace (.cache 1 (bytes "kernel" ++ bytes "." ++ bytes "0")) (by decide +kernel)
  obtain rfl : 1 = root := by simpa using hcache
  exact ⟨roots, hroots, hsorted, hlast, hmarker⟩

/-- The lookup fails on every root, which fails the request. -/
def unreadable : RequestOutcomes :=
  { RequestOutcomes.calm true with
    entry := fun _ => { EntryOutcomes.calm true with
      lookup := fun _ => { result := .error (bytes "Input/output error") } } }

/-- A kernel is loaded, then a call of `compile_without_load` with its key throws. The kernel stays in
the memory cache, and the next `compile` with the key returns it without a look at the disk. -/
theorem error_keeps_kernel :
    let one : DiskCache := ⟨[bytes "/a"], by decide⟩
    let t := (serve one false .sample .sample (.sample true (.calm true)) {}).2
    let t' := (serve one false .sample .sample (.sample false unreadable) t).2
    (serve one false .sample .sample (.sample false unreadable) t).1 =
        .error (.other (exceptionWhat "Panic" {} (bytes "all cache roots failed"))) ∧
      serve one false .sample .sample (.sample true (.calm true)) t' =
        (.ok (.cache 0 (bytes "kernel" ++ bytes "." ++ bytes "0")), t') ∧
      (compileImpl one false .sample .sample true (bytes "kernel") (bytes "0") () (.calm true) t'.session).2 ≠
        t'.session := by
  intro one t t'
  have hkernel : t'.memCache (bytes "0") = some (.cache 0 (bytes "kernel" ++ bytes "." ++ bytes "0")) := by
    decide +kernel
  refine ⟨by decide +kernel, ?_, fun hsame => ?_⟩
  · simp only [serve, Request.sample, if_true, getOrCreate, hkernel]
  · have hlength : (compileImpl one false .sample .sample true (bytes "kernel") (bytes "0") () (.calm true)
        t'.session).2.log.length ≠ t'.session.log.length := by
      decide +kernel
    exact hlength (by rw [hsame])

end

end DeepJit
