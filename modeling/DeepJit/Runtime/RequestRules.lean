import DeepJit.Runtime.Request

/-!
# Rules for requests

What the steps, the builds and the loop of a request do to the session, once for all the properties
of requests: one specification for each function, a rule for the loop over the roots, and the
invariants that hold because every single change keeps them.
-/

namespace DeepJit

/-! ### What the steps of a request do -/

/-- Events of operations that succeeded. -/
def Succeeded (client : Client) (place : Place) (events : List Event) : Prop :=
  ∀ event ∈ events, ∃ operation, operation.isWork = true ∧
    event = .operation client operation place .done

/-- What a failed build or load leaves: operations that succeeded, and the one that raised the
error. -/
def Failed (fallbackDisabled : Bool) (client : Client) (place : Place) (s : Session) (error : Exn)
    (s' : Session) :
    Prop :=
  ∃ events operation status, Succeeded client place events ∧
    Raised fallbackDisabled error operation status ∧
    operation.isWork = true ∧ s' = (s.recordAll events).record (.operation client operation place status)

section

variable {fallbackDisabled : Bool} {client : Client} {place : Place}

theorem Succeeded.nil : Succeeded client place [] := by
  intro event hevent
  simp at hevent

theorem Succeeded.cons {events : List Event} (h : Succeeded client place events)
    (operation : Operation) (hwork : operation.isWork = true) :
    Succeeded client place (.operation client operation place .done :: events) := by
  intro event hevent
  rcases List.mem_cons.mp hevent with rfl | hevent
  · exact ⟨operation, hwork, rfl⟩
  · exact h event hevent

theorem Succeeded.append {later earlier : List Event} (hlater : Succeeded client place later)
    (hearlier : Succeeded client place earlier) : Succeeded client place (later ++ earlier) := by
  intro event hevent
  rcases List.mem_append.mp hevent with hevent | hevent
  · exact hlater event hevent
  · exact hearlier event hevent

theorem Session.recordAll_recordAll (s : Session) (later earlier : List Event) :
    (s.recordAll earlier).recordAll later = s.recordAll (later ++ earlier) := by
  simp [Session.recordAll]

theorem raised_of_failure {what : Option Bytes} {error : Exn} (operation : Operation)
    (h : failure what = .error error) :
    Raised fallbackDisabled error operation (.of (.error error : Except Exn Unit)) := by
  cases what with
  | none => simp [failure] at h
  | some what =>
      simp only [failure, Except.error.injEq] at h
      subst h
      exact .failed operation what

theorem logged_spec {α : Type} (fallbackDisabled : Bool) (client : Client) (place : Place)
    (operation : Operation) (hoperation : operation.isWork = true) (result : Except Exn α)
    (s : Session)
    (hraised : ∀ error, result = .error error →
      Raised fallbackDisabled error operation (.of (.error error : Except Exn Unit))) :
    Post (fun _ s' => s' = s.recordAll [.operation client operation place .done])
      (Failed fallbackDisabled client place s) (logged client operation place result s) := by
  cases result with
  | ok value => exact rfl
  | error error =>
      refine ⟨[], operation, _, Succeeded.nil, hraised error rfl, hoperation, ?_⟩
      cases error <;> rfl

theorem Failed.after {events : List Event} (hevents : Succeeded client place events)
    {s s' : Session}
    {error : Exn} (h : Failed fallbackDisabled client place (s.recordAll events) error s') :
    Failed fallbackDisabled client place s error s' := by
  obtain ⟨later, operation, status, hlater, hraised, hoperation, rfl⟩ := h
  refine ⟨later ++ events, operation, status, hlater.append hevents, hraised, hoperation, ?_⟩
  rw [Session.recordAll_recordAll]

theorem runStep_spec (fallbackDisabled : Bool) (client : Client) (place : Place) (o : StepOutcome)
    (s : Session) (step : Step) :
    Post (fun _ s' => ∃ events, Succeeded client place events ∧ s' = s.recordAll events)
      (Failed fallbackDisabled client place s)
      (runStep fallbackDisabled client place o s step) := by
  cases step with
  | io =>
      refine (logged_spec _ _ _ .io rfl _ s fun error herror =>
        raised_of_runInIothread .io rfl herror).imp ?_ fun _ _ => id
      rintro _ s' rfl
      exact ⟨_, Succeeded.nil.cons .io rfl, rfl⟩
  | call =>
      refine (logged_spec _ _ _ .call rfl _ s fun error => raised_of_failure .call).imp ?_
        fun _ _ => id
      rintro _ s' rfl
      exact ⟨_, Succeeded.nil.cons .call rfl, rfl⟩
  | command text verdict =>
      rw [runStep]
      cases hcommand : callExternalCommand text o.command with
      | error error =>
          refine ⟨[], .command, _, Succeeded.nil, ?_, rfl, rfl⟩
          have htimeout := isTimeout_of_callExternalCommand hcommand
          by_cases hexpired : o.command.isExpired = true
          · have hmentions := mentionsCommandTimeout_of_isExpired hcommand hexpired
            rw [if_pos hexpired]
            cases error with
            | ioTimeout => simp [Exn.isTimeout] at htimeout
            | other what => exact .expired hmentions
          · rw [if_neg hexpired]
            cases error with
            | ioTimeout => simp [Exn.isTimeout] at htimeout
            | other what => exact .failed .command what
      | ok output =>
          have hlogged := logged_spec fallbackDisabled client place .call rfl
            (failure (verdict o.site output)) (s.recordAll [.operation client .command place .done])
            fun error => raised_of_failure .call
          refine hlogged.imp ?_ fun error s' => Failed.after (Succeeded.nil.cons .command rfl)
          rintro _ s' rfl
          exact ⟨_, (Succeeded.nil.cons .command rfl).cons .call rfl, rfl⟩

theorem runSteps_spec (fallbackDisabled : Bool) (client : Client) (place : Place)
    (o : Nat → StepOutcome) (steps : List Step) (k : Nat) (s : Session) :
    Post (fun _ s' => ∃ events, Succeeded client place events ∧ s' = s.recordAll events)
      (Failed fallbackDisabled client place s)
      (runSteps fallbackDisabled client place o steps k s) := by
  induction steps generalizing k s with
  | nil => exact ⟨[], Succeeded.nil, rfl⟩
  | cons step rest ih =>
      rw [runSteps]
      have hstep := runStep_spec fallbackDisabled client place (o k) s step
      rcases hrun : runStep fallbackDisabled client place (o k) s step with ⟨result, s₁⟩
      rw [hrun] at hstep
      cases result with
      | error error => exact hstep
      | ok _ =>
          obtain ⟨events, hevents, rfl⟩ := hstep
          refine (ih (k + 1) _).imp ?_ fun error s' => Failed.after hevents
          rintro _ s' ⟨later, hlater, rfl⟩
          exact ⟨later ++ events, hlater.append hevents, Session.recordAll_recordAll s later events⟩

/-- The entry after its commit. -/
def DiskCacheEntry.publish {cache : DiskCache} {first : Nat} (entry : DiskCacheEntry cache first) :
    DiskCacheEntry cache first :=
  { entry with path := entry.commitPath.getD entry.path, hit := true, committed := true }

/-- The event of a commit that succeeded. -/
def publicationEvent (place : Place) : Publication → Event
  | .published => .published place
  | .collided => .removed place

/-- A build of a miss commits it, or fails in its directory. Only the handler of the commit abandons
it, and only after a timeout. -/
theorem build_spec {cache : DiskCache} {first : Nat} (fallbackDisabled : Bool) (client : Client)
    (o : WorkOutcomes)
    (steps : List Step) {entry : DiskCacheEntry cache first} (hhit : entry.hit = false)
    (hcommitted : entry.committed = false) (s : Session) :
    Post
      (fun _ out => out.1 = entry.publish ∧
        ∃ events publication, Succeeded client entry.path events ∧
        out.2 = (s.recordAll events).record (publicationEvent entry.path publication))
      (fun error out => Failed fallbackDisabled client entry.path s error out.2 ∧
        ∃ abandoned, out.1 = entry.abandon abandoned ∧
        (fallbackDisabled = true → abandoned = entry.abandoned))
      (build fallbackDisabled client o steps entry s) := by
  have hsteps := runSteps_spec fallbackDisabled client entry.path o.steps steps 0 s
  rw [build]
  rcases hrun : runSteps fallbackDisabled client entry.path o.steps steps 0 s with ⟨result, s₁⟩
  rw [hrun] at hsteps
  cases result with
  | error error => exact ⟨hsteps, entry.abandoned, rfl, fun _ => rfl⟩
  | ok _ =>
      obtain ⟨events, hevents, rfl⟩ := hsteps
      simp only [DiskCacheEntry.commit, hhit, hcommitted, Bool.or_self, Bool.false_eq_true,
        if_false]
      cases hcommit : runInIothread fallbackDisabled o.commit with
      | ok publication =>
          refine ⟨rfl, _, publication, hevents.cons .commit rfl, ?_⟩
          cases publication <;> rfl
      | error error =>
          have hraised := raised_of_runInIothread .commit rfl hcommit
          refine ⟨⟨events, .commit, _, hevents, hraised, rfl, rfl⟩, ?_⟩
          cases hraised with
          | late hio henabled =>
              refine ⟨true, ?_, by simp [henabled]⟩
              simp only [Exn.isTimeout, if_true, DiskCacheEntry.abandon, hhit, hcommitted]
          | failed => exact ⟨entry.abandoned, rfl, fun _ => rfl⟩

end

/-! ### The rule of the loop -/

section

variable {α : Type} {cache : DiskCache} {fallbackDisabled : Bool} {client : Client}
  {tag digest : Bytes}
  {o : Nat → EntryOutcomes} {cleanup : Nat → IoTask Unit} {work : Work cache α}

/-- What the handler of the loop does with an error: without fallback it leaves the loop, with
fallback it abandons the entry if needed, reports the error, and leaves the loop behind the last
root. -/
def Handled (fallbackDisabled : Bool) (client : Client) (cleanup : Nat → IoTask Unit)
    (Pre : Nat → Session → Prop) (E : Exn → Session → Prop) {first : Nat} (error : Exn)
    (out : DiskCacheEntry cache first × Session) : Prop :=
  if fallbackDisabled then E error (out.1.destroy fallbackDisabled client (cleanup out.1.root) out.2)
  else
    let s := (out.1.abandon (leavesWork error)).destroy fallbackDisabled client (cleanup out.1.root)
      (out.2.reportError out.1.root error)
    if out.1.root.val + 1 = cache.paths.length then E error s else Pre (out.1.root + 1) s

/-- A precondition of the rounds, and what an entry is obtained with, give postconditions of the
loop. -/
theorem retry_rule (Pre : Nat → Session → Prop)
    (Obtained : (first : Nat) → DiskCacheEntry cache first → Session → Prop)
    {Q : α → Session → Prop} {E : Exn → Session → Prop}
    (hentry : ∀ first s, Pre first s →
      Post (Obtained first) E (cache.entry fallbackDisabled client tag digest (o first) first s))
    (hwork : ∀ first entry s, Obtained first entry s →
      Post (fun value out => Q value (out.1.destroy fallbackDisabled client (cleanup out.1.root) out.2))
        (Handled fallbackDisabled client cleanup Pre E) (work first entry s))
    (fuel first : Nat) (hfirst : first < cache.paths.length)
    (hfuel : cache.paths.length ≤ first + fuel) {s : Session} (hs : Pre first s) :
    Post Q E (retry cache fallbackDisabled client tag digest o cleanup work fuel first hfirst hfuel s) := by
  induction fuel generalizing first s with
  | zero => omega
  | succ fuel ih =>
      rw [retry]
      have hobtained := hentry first s hs
      rcases hcall : cache.entry fallbackDisabled client tag digest (o first) first s with ⟨result, s₁⟩
      rw [hcall] at hobtained
      cases result with
      | error error => exact hobtained
      | ok entry =>
          have hdone := hwork first entry s₁ hobtained
          dsimp only
          rcases htried : work first entry s₁ with ⟨result, entry', s₂⟩
          rw [htried] at hdone
          cases result with
          | ok value => exact hdone
          | error error =>
              rw [post_error, Handled] at hdone
              cases fallbackDisabled with
              | true => exact hdone
              | false =>
                  simp only [Bool.false_eq_true, if_false] at hdone ⊢
                  by_cases hlast : entry'.root.val + 1 = cache.paths.length
                  · simp only [hlast, if_true, dite_true] at hdone ⊢
                    exact hdone
                  · simp only [hlast, if_false, dite_false] at hdone ⊢
                    exact ih _ _ _ hdone

theorem run_rule (Pre : Nat → Session → Prop)
    (Obtained : (first : Nat) → DiskCacheEntry cache first → Session → Prop)
    {Q : α → Session → Prop} {E : Exn → Session → Prop}
    (hentry : ∀ first s, Pre first s →
      Post (Obtained first) E (cache.entry fallbackDisabled client tag digest (o first) first s))
    (hwork : ∀ first entry s, Obtained first entry s →
      Post (fun value out => Q value (out.1.destroy fallbackDisabled client (cleanup out.1.root) out.2))
        (Handled fallbackDisabled client cleanup Pre E) (work first entry s))
    {s : Session} (hs : Pre 0 s) :
    Post Q E (run cache fallbackDisabled client tag digest o cleanup work s) :=
  retry_rule Pre Obtained hentry hwork _ 0 _ _ hs

end

/-! ### The rules of the bootstrap and of a load -/

section

variable {ρ : Type} {cache : DiskCache} {fallbackDisabled : Bool} {loader : Loader}
  {backend : Backend ρ}
  {I : Session → Prop} {E : Exn → Session → Prop}

theorem makeBootstrap_rule (hcall : ∀ what s, I s → E (.other what) s)
    (hdone : ∀ s, I s → I { s with bootstrapped := true }) (o : BootstrapOutcomes)
    (hloader : ∀ s, I s → Post (fun _ s => I s) E (buildLoader cache fallbackDisabled loader o.loader s))
    {s : Session} (hs : I s) :
    Post (fun _ s => I s) E (makeBootstrap cache fallbackDisabled loader o s) := by
  rw [makeBootstrap]
  cases o.before with
  | some what => exact hcall what s hs
  | none =>
      have hbuilt := hloader s hs
      rcases hrun : buildLoader cache fallbackDisabled loader o.loader s with ⟨result, s₁⟩
      rw [hrun] at hbuilt
      cases result with
      | error error => exact hbuilt
      | ok library =>
          cases o.after with
          | some what => exact hcall what s₁ hbuilt
          | none => exact hdone s₁ hbuilt

theorem load_rule {place : Place}
    (hsucceeded : ∀ s events, I s → Succeeded .runtime place events → I (s.recordAll events))
    (hfailed : ∀ s error s', I s → Failed fallbackDisabled .runtime place s error s' → E error s')
    (o : AttemptOutcomes)
    (hbootstrap : ∀ s, I s → Post (fun _ s => I s)
      (fun error s => E error (s.record (.operation .runtime .bootstrap place (.of (.error error : Except Exn Unit)))))
      (makeBootstrap cache fallbackDisabled loader o.bootstrap s))
    {s : Session} (hs : I s) :
    Post (fun _ s => I s) E (load cache fallbackDisabled loader backend place o s) := by
  have hsteps : ∀ s, I s → Post (fun _ s => I s) E
      (runSteps fallbackDisabled .runtime place o.load (backend.load place) 0 s) := by
    intro s hs
    refine (runSteps_spec fallbackDisabled .runtime place o.load (backend.load place) 0 s).imp ?_
      fun error s' =>
      hfailed s error s' hs
    rintro _ s' ⟨events, hevents, rfl⟩
    exact hsucceeded s events hs hevents
  rw [load]
  by_cases hdisk : backend.usesDiskCache = true
  · rw [if_pos hdisk]
    have hprobe := logged_spec fallbackDisabled .runtime place .io rfl (runInIothread fallbackDisabled o.probe) s
      fun error => raised_of_runInIothread .io rfl
    rcases hlogged : logged .runtime .io place (runInIothread fallbackDisabled o.probe) s with ⟨result, s₁⟩
    rw [hlogged] at hprobe
    cases result with
    | error error => exact hfailed s error s₁ hs hprobe
    | ok isAicpu =>
        obtain rfl : s₁ = _ := hprobe
        have hs₁ := hsucceeded s _ hs (Succeeded.nil.cons .io rfl)
        dsimp only
        by_cases hneeded : (!(s.recordAll [.operation .runtime .io place .done]).bootstrapped && isAicpu) = true
        · rw [if_pos hneeded]
          have hmade := hbootstrap _ hs₁
          rcases hrun : makeBootstrap cache fallbackDisabled loader o.bootstrap
            (s.recordAll [.operation .runtime .io place .done]) with ⟨result, s₂⟩
          rw [hrun] at hmade
          cases result with
          | error error => exact hmade
          | ok _ => exact hsteps _ (hsucceeded s₂ _ hmade (Succeeded.nil.cons .bootstrap rfl))
        · rw [if_neg hneeded]
          exact hsteps _ hs₁
  · rw [if_neg hdisk]
    exact hsteps s hs

end

/-! ### Invariants of every request -/

/-- The events that a request logs outside `entry`. -/
def Event.isWork : Event → Bool
  | .operation _ kind _ _ => kind.isWork || kind == .cleanup
  | .published _ | .removed _ => true
  | _ => false

/-- What every change of the session keeps. -/
structure RequestInvariant (J : Session → Prop) : Prop where
  check {s : Session} (client : Client) (root : Nat) : J s → J (s.checkTimeouts client root).2
  lookup {s : Session} {root : Nat} (client : Client) (entryName : Bytes) (status : Status) : J s →
    s.numTimeouts root < 3 → J (s.record (.operation client .lookup (.cache root entryName) status))
  setUp {s : Session} {root : Nat} (client : Client) (creates : Bool) (status : Status) : J s →
    s.numTimeouts root < 3 → J (s.setUp client root creates status)
  record {s : Session} {event : Event} : event.isWork = true → J s → J (s.record event)
  report {s : Session} (root : Nat) (error : Exn) : J s → J (s.reportError root error)
  bootstrap {s : Session} : J s → J { s with bootstrapped := true }

namespace RequestInvariant

variable {J : Session → Prop} {fallbackDisabled : Bool} {client : Client} {place : Place}

theorem entryInvariant (hJ : RequestInvariant J) : EntryInvariant fallbackDisabled client J where
  check root := hJ.check client root
  lookup hs hlow _ := hJ.lookup client _ _ hs hlow
  lookupFailed hs hlow _ _ := hJ.report _ _ (hJ.lookup client _ _ hs hlow)
  setupFailed creates hs hlow _ _ := hJ.report _ _ (hJ.setUp client creates _ hs hlow)

theorem entry (hJ : RequestInvariant J) {cache : DiskCache} (tag digest : Bytes) (o : EntryOutcomes)
    (first : Nat) {s : Session} (hs : J s) :
    Post (fun _ s => J s) (fun _ s => J s)
      (cache.entry fallbackDisabled client tag digest o first s) := by
  refine (entry_rule (hJ.entryInvariant) tag digest o first hs).imp ?_ ?_
  · rintro entry s' (⟨hs', -, -⟩ | ⟨s₁, shared, hs₁, hlow, rfl, -⟩)
    · exact hs'
    · exact hJ.setUp client true .done hs₁ hlow
  · rintro error s' (⟨-, hs'⟩ | ⟨-, s₁, root, status, hs₁, hlow, ⟨-, rfl⟩ | ⟨-, creates, rfl⟩⟩)
    · exact hs'
    · exact hJ.lookup client _ status hs₁ hlow
    · exact hJ.setUp client creates status hs₁ hlow

theorem recordAll (hJ : RequestInvariant J) {s : Session} (hs : J s) {events : List Event}
    (hevents : Succeeded client place events) : J (s.recordAll events) := by
  induction events with
  | nil => exact hs
  | cons event events ih =>
      obtain ⟨operation, hwork, rfl⟩ := hevents event (by simp)
      have hrest := ih fun event hevent => hevents event (by simp [hevent])
      exact hJ.record (by simp [Event.isWork, hwork]) hrest

theorem failed (hJ : RequestInvariant J) {s s' : Session} (hs : J s) {error : Exn}
    (h : Failed fallbackDisabled client place s error s') : J s' := by
  obtain ⟨events, operation, status, hevents, -, hwork, rfl⟩ := h
  exact hJ.record (by simp [Event.isWork, hwork]) (hJ.recordAll hs hevents)

theorem destroy (hJ : RequestInvariant J) {cache : DiskCache} {first : Nat}
    (entry : DiskCacheEntry cache first) (cleanup : IoTask Unit) {s : Session} (hs : J s) :
    J (entry.destroy fallbackDisabled client cleanup s) := by
  rw [DiskCacheEntry.destroy]
  split
  · exact hs
  · cases runInIothread fallbackDisabled cleanup with
    | ok _ => exact hJ.record rfl (hJ.record rfl hs)
    | error error => exact hJ.record rfl hs

theorem build (hJ : RequestInvariant J) (fallbackDisabled : Bool) (client : Client)
    {cache : DiskCache} {first : Nat} (o : WorkOutcomes) (steps : List Step)
    (entry : DiskCacheEntry cache first) {s : Session} (hs : J s) :
    Post (fun _ out => J out.2) (fun _ out => J out.2)
      (build fallbackDisabled client o steps entry s) := by
  have hsteps := runSteps_spec fallbackDisabled client entry.path o.steps steps 0 s
  rw [DeepJit.build]
  rcases hrun : runSteps fallbackDisabled client entry.path o.steps steps 0 s with ⟨result, s₁⟩
  rw [hrun] at hsteps
  cases result with
  | error error => exact hJ.failed hs hsteps
  | ok _ =>
      obtain ⟨events, hevents, rfl⟩ := hsteps
      have hs₁ := hJ.recordAll hs hevents
      dsimp only
      rw [DiskCacheEntry.commit]
      split
      · exact hs₁
      · cases runInIothread fallbackDisabled o.commit with
        | error error => exact hJ.record rfl hs₁
        | ok publication => cases publication <;> exact hJ.record rfl (hJ.record rfl hs₁)

theorem run (hJ : RequestInvariant J) {α : Type} {cache : DiskCache} {tag digest : Bytes}
    {o : Nat → EntryOutcomes} {cleanup : Nat → IoTask Unit} {work : Work cache α}
    (hwork : ∀ first entry s, J s →
      Post (fun _ out => J out.2) (fun _ out => J out.2) (work first entry s))
    {s : Session} (hs : J s) :
    Post (fun _ s => J s) (fun _ s => J s)
      (run cache fallbackDisabled client tag digest o cleanup work s) := by
  refine run_rule (fun _ => J) (fun _ _ => J) (fun first s hs => hJ.entry tag digest (o first) first hs)
    (fun first entry s hs => (hwork first entry s hs).imp ?_ ?_) hs
  · intro _ out hout
    exact hJ.destroy out.1 _ hout
  · intro error out hout
    rw [Handled]
    split
    · exact hJ.destroy out.1 _ hout
    · have hhandled : J ((out.1.abandon (leavesWork error)).destroy fallbackDisabled client (cleanup out.1.root)
          (out.2.reportError out.1.root error)) := hJ.destroy _ _ (hJ.report _ _ hout)
      dsimp only
      split <;> exact hhandled

theorem buildLoader (hJ : RequestInvariant J) {cache : DiskCache} (loader : Loader)
    (o : LoaderOutcomes) {s : Session} (hs : J s) :
    Post (fun _ s => J s) (fun _ s => J s) (buildLoader cache fallbackDisabled loader o s) := by
  rw [DeepJit.buildLoader]
  cases o.prepare with
  | some what => exact hs
  | none =>
      refine hJ.run (fun first entry s hs => ?_) hs
      rw [loaderWork]
      split
      · have hsteps := runSteps_spec fallbackDisabled .loader entry.path (o.work entry.root).steps [.io] 0 s
        rcases hrun : runSteps fallbackDisabled .loader entry.path (o.work entry.root).steps [.io] 0 s with ⟨result, s₁⟩
        rw [hrun] at hsteps
        cases result with
        | error error => exact hJ.failed hs hsteps
        | ok _ =>
            obtain ⟨events, hevents, rfl⟩ := hsteps
            exact hJ.recordAll hs hevents
      · have hbuilt := hJ.build fallbackDisabled .loader (o.work entry.root)
          [.io, .command (loader.command entry.path) fun _ _ => none, .io] entry hs
        rcases hrun : DeepJit.build fallbackDisabled .loader (o.work entry.root)
          [.io, .command (loader.command entry.path) fun _ _ => none, .io] entry s with ⟨result, entry', s₁⟩
        rw [hrun] at hbuilt
        cases result <;> exact hbuilt

/-- An invariant of all changes of the session is one of `compile_impl`. -/
theorem compileImpl (hJ : RequestInvariant J) {ρ : Type} {cache : DiskCache} (loader : Loader)
    (backend : Backend ρ)
    (loads : Bool) (name key : Bytes) (input : ρ) (o : RequestOutcomes) {s : Session} (hs : J s) :
    Post (fun _ s => J s) (fun _ s => J s)
      (compileImpl cache fallbackDisabled loader backend loads name key input o s) := by
  refine hJ.run (fun first entry s hs => ?_) hs
  have hbuilt : Post (fun _ out => J out.2) (fun _ out => J out.2)
      (buildEntry fallbackDisabled backend input o entry s) := by
    rw [buildEntry]
    split
    · exact hs
    · exact hJ.build _ _ _ _ entry hs
  rw [requestWork]
  rcases hrun : buildEntry fallbackDisabled backend input o entry s with ⟨result, entry', s₁⟩
  rw [hrun] at hbuilt
  cases result with
  | error error => exact hbuilt
  | ok _ =>
      dsimp only
      split
      · have hloaded : Post (fun _ s => J s) (fun _ s => J s)
            (load cache fallbackDisabled loader backend entry'.path (o.attempt entry'.root) s₁) := by
          refine load_rule (fun s events hs hevents => hJ.recordAll hs hevents)
            (fun s error s' hs hfailed => hJ.failed hs hfailed) _ (fun s hs => ?_) hbuilt
          refine (makeBootstrap_rule (E := fun _ => J) (fun _ _ => id) (fun _ => hJ.bootstrap) _
            (fun s hs => hJ.buildLoader loader _ hs) hs).imp (fun _ _ => id) fun error s' hs' => hJ.record rfl hs'
        rcases hload : load cache fallbackDisabled loader backend entry'.path (o.attempt entry'.root) s₁ with
          ⟨result, s₂⟩
        rw [hload] at hloaded
        cases result <;> exact hloaded
      · exact hbuilt

end RequestInvariant

end DeepJit
