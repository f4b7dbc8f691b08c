import DeepJit.Utils.ExecutorSafety
import Mathlib.Data.Set.Subsingleton

/-!
# No wakeup is lost

One condition variable of a context serves its worker and its caller, and `stop` and the worker
notify it after they have released the lock. Nobody waits for a condition that already holds, unless
the thread that made it true has its notification still in front of it, and a notification never
finds more than one thread to choose from.
-/

namespace DeepJit.Executor

section

variable {α ε : Type} {timeout : Nat → Int} {tasks : Nat → Except ε α → Prop} {s s' : State α ε}
  {c k : Nat}

open State

/-! ### Wait sets -/

/-- A thread that can wait on the condition variable of a context. -/
inductive Waiter where
  | worker
  | caller (c : Nat)

namespace State

/-- The wait set of `Context::cv`. -/
def waitSet (s : State α ε) (k : Nat) : Set Waiter := fun
  | .worker => s.workers k = .asleep
  | .caller c => s.callers c = .asleep k

@[simp] theorem worker_mem_waitSet : Waiter.worker ∈ s.waitSet k ↔ s.workers k = .asleep := Iff.rfl
@[simp] theorem caller_mem_waitSet : Waiter.caller c ∈ s.waitSet k ↔ s.callers c = .asleep k :=
  Iff.rfl

/-- `stop` has marked the context, and its `notify_one` is still to come. -/
def StopDue (s : State α ε) (k : Nat) : Prop := ∃ c outcome, s.callers c = .stopping k outcome

/-- The worker has set `done`, and its `notify_one` is still to come. -/
def DoneDue (s : State α ε) (k : Nat) : Prop := s.workers k = .notifying

end State

theorem NotifyOne.workers_mono (hn : NotifyOne s k s') {j : Nat} (hpc : s'.workers j = .asleep) :
    s.workers j = .asleep := by
  cases hn with
  | none | caller => exact hpc
  | worker hworker =>
      by_cases hj : j = k
      · simp [setWorker, hj] at hpc
      · simpa [setWorker, hj] using hpc

theorem NotifyOne.callers_mono (hn : NotifyOne s k s') {j : Nat} (hpc : s'.callers c = .asleep j) :
    s.callers c = .asleep j := by
  cases hn with
  | none | worker => exact hpc
  | @caller d hd =>
      by_cases hcd : c = d
      · simp [setCaller, hcd] at hpc
      · simpa [setCaller, hcd] using hpc

theorem NotifyOne.worker_eq (hn : NotifyOne s k s') {j : Nat} (hpc : s.workers j ≠ .asleep) :
    s'.workers j = s.workers j := by
  cases hn with
  | none | caller => rfl
  | worker hworker =>
      have hj : j ≠ k := by
        rintro rfl
        exact hpc hworker
      simp [setWorker, hj]

/-- A notification of a wait set with one thread at most leaves nobody there. -/
theorem NotifyOne.waitSet_eq_empty (hn : NotifyOne s k s') (hone : (s.waitSet k).Subsingleton) :
    s'.waitSet k = ∅ := by
  apply Set.eq_empty_of_forall_notMem
  intro w hw
  have hw' : w ∈ s.waitSet k := by
    cases w with
    | worker => exact hn.workers_mono hw
    | caller c => exact hn.callers_mono hw
  cases hn with
  | none hworker hcallers =>
      cases w with
      | worker => exact hworker hw'
      | caller c => exact hcallers c hw'
  | worker hworker =>
      obtain rfl : w = .worker := hone hw' hworker
      simp [setWorker] at hw
  | @caller d hd =>
      obtain rfl : w = .caller d := hone hw' (show Waiter.caller d ∈ s.waitSet k from hd)
      simp [setCaller] at hw

/-- The `notify_one` of `run`, `stop` and the worker, each with the state in which it is issued.
`run` issues it inside its critical section, between the submission and the wait. -/
inductive Notifies (s : State α ε) (k : Nat) : State α ε → Prop where
  | submit {c : Nat} (hpc : s.callers c = .locked) (hcontext : s.current = some k) :
      Notifies s k (s.submit k c)
  | stop (hdue : s.StopDue k) : Notifies s k s
  | done (hdue : s.DoneDue k) : Notifies s k s

/-- Two callers never wait at once, and a notification has one possible receiver. -/
theorem Inv.waitSet_subsingleton (h : Inv timeout tasks s) (hn : Notifies s k s') :
    (s'.waitSet k).Subsingleton := by
  have hinside (c : Nat) (hc : s.callers c = .asleep k) : (s.callers c).Inside := by
    simp [hc, CallerPc.Inside]
  have hcallers (c d : Nat) (hc : s.callers c = .asleep k) (hd : s.callers d = .asleep k) : c = d := by
    by_contra hne
    exact h.alone (hinside d hd) hne (hinside c hc)
  have hunwatched (hnone : ∀ c, s.callers c ≠ .asleep k) : (s.waitSet k).Subsingleton := by
    intro v hv w hw
    cases v with
    | worker =>
        cases w with
        | worker => rfl
        | caller c => exact absurd hw (hnone c)
    | caller c => exact absurd hv (hnone c)
  cases hn with
  | @submit c hpc hcontext =>
      apply hunwatched
      intro d hd
      have hne : d ≠ c := by
        rintro rfl
        simp [hpc] at hd
      exact h.alone (by simp [hpc, CallerPc.Inside]) hne (hinside d hd)
  | stop hdue =>
      obtain ⟨c, outcome, hpc⟩ := hdue
      have hc := h.caller c
      rw [hpc] at hc
      exact hunwatched (h.not_asleep_of_stopped hc.2.1)
  | done hdue =>
      have hdue' : s.workers k = .notifying := hdue
      intro v hv w hw
      cases v with
      | worker => simp [hdue'] at hv
      | caller c =>
          cases w with
          | worker => simp [hdue'] at hw
          | caller d => rw [hcallers c d hv hw]

theorem Inv.waitSet_after (h : Inv timeout tasks s) {s₁ : State α ε} (hn : Notifies s k s₁)
    (hnotify : NotifyOne s₁ k s') : s'.waitSet k = ∅ :=
  hnotify.waitSet_eq_empty (h.waitSet_subsingleton hn)

/-! ### Conditions that hold already -/

/-- A worker that sleeps in a stopped context, and a caller that sleeps after its task is done, are
about to be notified. -/
structure Wakeups (s : State α ε) : Prop where
  stopped : ∀ k, s.workers k = .asleep → (s.contexts k).stopped = true → s.StopDue k
  done : ∀ c k, s.callers c = .asleep k → (s.contexts k).done = true → s.DoneDue k

theorem wakeups_init : Wakeups ({} : State α ε) := by
  constructor
  · intro k hpc
    simp at hpc
  · intro c k hpc
    simp at hpc

namespace Wakeups

/-- A step of a caller that owes no worker a notification, and that goes to sleep only before its
task is done. -/
theorem caller_step (h : Wakeups s) (hworkers : s'.workers = s.workers)
    (hcontexts : s'.contexts = s.contexts) (hcallers : ∀ d, d ≠ c → s'.callers d = s.callers d)
    (howes : ∀ k outcome, s.callers c = .stopping k outcome → s.workers k ≠ .asleep)
    (hsleep : ∀ k, s'.callers c = .asleep k → (s.contexts k).done = false) : Wakeups s' := by
  constructor
  · intro k hpc hstopped
    rw [hworkers] at hpc
    rw [hcontexts] at hstopped
    obtain ⟨d, outcome, hd⟩ := h.stopped k hpc hstopped
    have hne : d ≠ c := by
      rintro rfl
      exact howes k outcome hd hpc
    exact ⟨d, outcome, by rw [hcallers d hne, hd]⟩
  · intro d k hpc hdone
    rw [hcontexts] at hdone
    by_cases hd : d = c
    · subst hd
      simp [hsleep k hpc] at hdone
    · rw [hcallers d hd] at hpc
      unfold State.DoneDue
      rw [hworkers]
      exact h.done d k hpc hdone

theorem setCaller (h : Wakeups s) {pc : CallerPc α ε}
    (howes : ∀ k outcome, s.callers c = .stopping k outcome → s.workers k ≠ .asleep)
    (hsleep : ∀ k, pc = .asleep k → (s.contexts k).done = false) : Wakeups (s.setCaller c pc) := by
  refine h.caller_step (c := c) ?_ ?_ ?_ howes ?_
  · rfl
  · rfl
  · intro d hd
    simp [State.setCaller, hd]
  · simpa [State.setCaller] using hsleep

/-- `run_lock` and the current context do not matter. -/
theorem of_same (h : Wakeups s) (hworkers : s'.workers = s.workers)
    (hcontexts : s'.contexts = s.contexts) (hcallers : s'.callers = s.callers) : Wakeups s' := by
  obtain ⟨hstopped, hdone⟩ := h
  constructor
  · unfold State.StopDue
    rwa [hworkers, hcontexts, hcallers]
  · unfold State.DoneDue
    rwa [hworkers, hcontexts, hcallers]

/-- The submission resets `done` before its caller waits for it. -/
theorem submit (h : Wakeups s) : Wakeups (s.submit k c) := by
  constructor
  · intro j hpc hstopped
    apply h.stopped j hpc
    by_cases hj : j = k
    · subst hj
      simpa [State.submit, setContext] using hstopped
    · simpa [State.submit, setContext, hj] using hstopped
  · intro d j hpc hdone
    by_cases hj : j = k
    · subst hj
      simp [State.submit, setContext] at hdone
    · exact h.done d j hpc (by simpa [State.submit, setContext, hj] using hdone)

/-- `stop` marks the context and owes the notification from then on. -/
theorem markStopped (h : Wakeups s) {outcome : Outcome α ε}
    (howes : ∀ k outcome, s.callers c ≠ .stopping k outcome) :
    Wakeups ((s.markStopped k).setCaller c (.stopping k outcome)) := by
  constructor
  · intro j hpc hstopped
    by_cases hj : j = k
    · subst hj
      exact ⟨c, outcome, by simp [State.setCaller]⟩
    · have hstopped' : (s.contexts j).stopped = true := by
        simpa [State.setCaller, State.markStopped, setContext, hj] using hstopped
      obtain ⟨d, o, hd⟩ := h.stopped j hpc hstopped'
      have hne : d ≠ c := by
        rintro rfl
        exact howes j o hd
      exact ⟨d, o, by simpa [State.setCaller, State.markStopped, setContext, hne] using hd⟩
  · intro d j hpc hdone
    have hne : d ≠ c := by
      rintro rfl
      simp [State.setCaller] at hpc
    have hpc' : s.callers d = .asleep j := by
      simpa [State.setCaller, State.markStopped, setContext, hne] using hpc
    apply h.done d j hpc'
    by_cases hj : j = k
    · subst hj
      simpa [State.setCaller, State.markStopped, setContext] using hdone
    · simpa [State.setCaller, State.markStopped, setContext, hj] using hdone

/-- A step of worker `k`. -/
theorem worker_step (h : Wakeups s) (hcallers : s'.callers = s.callers)
    (hworkers : ∀ j, j ≠ k → s'.workers j = s.workers j)
    (hcontexts : ∀ j, j ≠ k → s'.contexts j = s.contexts j)
    (hsleep : s'.workers k = .asleep → (s'.contexts k).stopped = false)
    (hdone : ∀ c, s.callers c = .asleep k → (s'.contexts k).done = true → s'.DoneDue k) :
    Wakeups s' := by
  constructor
  · intro j hpc hstopped
    by_cases hj : j = k
    · subst hj
      simp [hsleep hpc] at hstopped
    · rw [hworkers j hj] at hpc
      rw [hcontexts j hj] at hstopped
      unfold State.StopDue
      rw [hcallers]
      exact h.stopped j hpc hstopped
  · intro c j hpc hd
    rw [hcallers] at hpc
    by_cases hj : j = k
    · subst hj
      exact hdone c hpc hd
    · rw [hcontexts j hj] at hd
      unfold State.DoneDue
      rw [hworkers j hj]
      exact h.done c j hpc hd

theorem setWorker (h : Wakeups s) {pc : WorkerPc} (hpc : s.workers k ≠ .notifying)
    (hsleep : pc = .asleep → (s.contexts k).stopped = false) : Wakeups (s.setWorker k pc) := by
  refine h.worker_step (k := k) ?_ ?_ ?_ ?_ ?_
  · rfl
  · intro j hj
    simp [State.setWorker, hj]
  · exact fun _ _ => rfl
  · simpa [State.setWorker] using hsleep
  · intro c hc hdone
    exact absurd (h.done c k hc hdone) hpc

/-- After a notification that leaves nobody in the wait set of its context, the other contexts are as
before. -/
theorem notifyOne (h : Wakeups s) (hn : NotifyOne s k s') (hempty : s'.waitSet k = ∅) :
    Wakeups s' := by
  have hout (w : Waiter) : w ∉ s'.waitSet k := by simp [hempty]
  have hcontexts : s'.contexts = s.contexts := hn.same.2.2.2.1
  constructor
  · intro j hpc hstopped
    rw [hcontexts] at hstopped
    obtain ⟨c, outcome, hc⟩ := h.stopped j (hn.workers_mono hpc) hstopped
    exact ⟨c, outcome, by rw [hn.caller_eq (by simp [hc]), hc]⟩
  · intro c j hpc hdone
    rw [hcontexts] at hdone
    have hdue : s.workers j = .notifying := h.done c j (hn.callers_mono hpc) hdone
    unfold State.DoneDue
    rw [hn.worker_eq (by simp [hdue]), hdue]

theorem step (h : Wakeups s) (hinv : Inv timeout tasks s) {a : Action}
    (hstep : Step timeout tasks s a s') : Wakeups s' := by
  cases hstep with
  | @invoke c hpc hopen =>
      apply h.setCaller
      · simp [hpc]
      · intro k
        split <;> simp
  | @acquire c hpc hlock =>
      have hlocked : Wakeups (s.setCaller c .locked) := h.setCaller (by simp [hpc]) (by simp)
      exact hlocked.of_same rfl rfl rfl
  | create hpc hcontext => exact h.of_same rfl rfl rfl
  | @startFails c hpc hcontext =>
      have hended : Wakeups (s.setCaller c (.ended .noWorker)) := h.setCaller (by simp [hpc]) (by simp)
      exact hended.of_same rfl rfl rfl
  | @submit s₁ c k hpc hcontext hnotify =>
      have hempty := hinv.waitSet_after (.submit hpc hcontext) hnotify
      have hlocked : s₁.callers c = .locked := by
        rw [hnotify.caller_eq (by simp [State.submit, setContext, hpc])]
        exact hpc
      apply (h.submit.notifyOne hnotify hempty).setCaller
      · simp [hlocked]
      · intro j hj
        obtain rfl : k = j := by simpa using hj
        simp [hnotify.same.2.2.2.1, State.submit, setContext]
  | @wake c k hpc => exact h.setCaller (by simp [hpc]) (by simp)
  | @expire c k hpc htimeout =>
      apply h.setCaller
      · rcases hpc with hpc | hpc <;> simp [hpc]
      · simp
  | @seeDone c k expired hpc hdone => exact h.setCaller (by simp [hpc]) (by simp)
  | @seeExpired c k hpc hdone => exact h.setCaller (by simp [hpc]) (by simp)
  | @sleepAgain c k hpc hdone =>
      apply h.setCaller (by simp [hpc])
      intro j hj
      obtain rfl : k = j := by simpa using hj
      exact hdone
  | @getValue c k value hpc hpromise =>
      have hended : Wakeups (s.setCaller c (.ended (.returned value))) := h.setCaller (by simp [hpc]) (by simp)
      exact hended.of_same rfl rfl rfl
  | @getError c k error hpc hpromise => exact h.markStopped (by simp [hpc])
  | @giveUp c k hpc => exact h.markStopped (by simp [hpc])
  | @detach s₁ c k outcome hpc hnotify =>
      have hempty := hinv.waitSet_after (.stop ⟨c, outcome, hpc⟩) hnotify
      have hpc' : s₁.callers c = .stopping k outcome := by
        rw [hnotify.caller_eq (by simp [hpc]), hpc]
      have hended : Wakeups (s₁.setCaller c (.ended outcome)) := by
        apply (h.notifyOne hnotify hempty).setCaller
        · intro j o hj hasleep
          -- the thread that leaves `stop` has notified the only worker it owed it to
          obtain ⟨rfl, -⟩ : k = j ∧ outcome = o := by simpa [hpc'] using hj
          have hin : Waiter.worker ∈ s₁.waitSet k := hasleep
          simp [hempty] at hin
        · simp
      exact hended.of_same rfl rfl rfl
  | @destroy c k hpc hopen halone hcontext =>
      have hstopping : Wakeups ((s.markStopped k).setCaller c (.stopping k .destroyed)) :=
        h.markStopped (by simp [hpc])
      exact hstopping.of_same rfl rfl rfl
  | @destroyEmpty c hpc hopen halone hcontext =>
      have hended : Wakeups (s.setCaller c (.ended .destroyed)) := h.setCaller (by simp [hpc]) (by simp)
      exact hended.of_same rfl rfl rfl
  | workerSleep hk hpc htask hstopped => exact h.setWorker (by simp [hpc]) fun _ => hstopped
  | workerWake hpc => exact h.setWorker (by simp [hpc]) (by simp)
  | @take k t hk hpc htask hstopped =>
      refine h.worker_step (k := k) ?_ ?_ ?_ ?_ ?_
      · rfl
      · intro j hj
        simp [State.take, State.setWorker, setContext, hj]
      · intro j hj
        simp [State.take, State.setWorker, setContext, hj]
      · simp [State.take, State.setWorker]
      · intro c hc hdone
        have hdue : s.workers k = .notifying :=
          h.done c k hc (by simpa [State.take, State.setWorker, setContext] using hdone)
        simp [hpc] at hdue
  | @exit k hk hpc hstopped =>
      refine h.worker_step (k := k) ?_ ?_ ?_ ?_ ?_
      · rfl
      · intro j hj
        simp [State.exit, State.setWorker, setContext, hj]
      · intro j hj
        simp [State.exit, State.setWorker, setContext, hj]
      · simp [State.exit, State.setWorker]
      · intro c hc
        exact absurd hc (hinv.not_asleep_of_stopped hstopped c)
  | @complete k t result hpc hresult =>
      have hcompleted : Wakeups (s.setWorker k (.completed t)) := h.setWorker (by simp [hpc]) (by simp)
      exact hcompleted.of_same rfl rfl rfl
  | @markDone k t hpc =>
      refine h.worker_step (k := k) ?_ ?_ ?_ ?_ ?_
      · rfl
      · intro j hj
        simp [State.setWorker, setContext, hj]
      · intro j hj
        simp [State.setWorker, setContext, hj]
      · simp [State.setWorker]
      · simp [State.DoneDue, State.setWorker]
  | @notify s₁ k hpc hnotify =>
      have hempty := hinv.waitSet_after (.done hpc) hnotify
      refine (h.notifyOne hnotify hempty).worker_step (k := k) ?_ ?_ ?_ ?_ ?_
      · rfl
      · intro j hj
        simp [State.setWorker, hj]
      · exact fun _ _ => rfl
      · simp [State.setWorker]
      · intro c hc
        have hin : Waiter.caller c ∈ s₁.waitSet k := hc
        simp [hempty] at hin

end Wakeups

theorem wakeups_of_reachable (hs : (system timeout tasks).Reachable s) : Wakeups s := by
  have hboth : Inv timeout tasks s ∧ Wakeups s := by
    apply hs.invariant (I := fun s => Inv timeout tasks s ∧ Wakeups s)
    · rintro _ rfl
      exact ⟨inv_init, wakeups_init⟩
    · intro s a s' hs hstep
      exact ⟨hs.1.step hstep, hs.2.step hs.1 hstep⟩
  exact hboth.2

/-- A waiting worker has no task. -/
theorem Inv.task_eq_none_of_asleep (h : Inv timeout tasks s) (hpc : s.workers k = .asleep) :
    (s.contexts k).task = none := by
  apply Option.eq_none_iff_forall_ne_some.mpr
  intro t htask
  have hworker := ((h.context k).waiting t htask).1
  simp [hpc] at hworker

/-- The wakeup that a stopped worker waits for needs no lock, and takes it out of the wait set. -/
theorem exists_step_of_stopped (hs : (system timeout tasks).Reachable s)
    (hpc : s.workers k = .asleep) (hstopped : (s.contexts k).stopped = true) :
    ∃ c s', Step timeout tasks s (.caller c) s' ∧ s'.workers k = .ready := by
  obtain ⟨c, outcome, hc⟩ := (wakeups_of_reachable hs).stopped k hpc hstopped
  exact ⟨c, _, .detach hc (.worker hpc), by simp [State.setCaller, State.setWorker]⟩

/-- The same for a caller whose task is done. -/
theorem exists_step_of_done (hs : (system timeout tasks).Reachable s)
    (hpc : s.callers c = .asleep k) (hdone : (s.contexts k).done = true) :
    ∃ s', Step timeout tasks s (.worker k) s' ∧ s'.callers c = .awake k false := by
  have hdue := (wakeups_of_reachable hs).done c k hpc hdone
  exact ⟨_, .notify hdue (.caller hpc), by simp [State.setCaller, State.setWorker]⟩

/-- In every reachable state: a worker in the wait set has no task, and if its context is stopped a
wakeup of it is due; a caller in the wait set whose task is done has a wakeup due; and at every
`notify_one` the wait set holds the worker or a caller but not both, so that nobody is left in it. -/
theorem no_lost_wakeup (hs : (system timeout tasks).Reachable s) (k : Nat) :
    (.worker ∈ s.waitSet k →
      (s.contexts k).task = none ∧ ((s.contexts k).stopped = true → s.StopDue k)) ∧
    (∀ c, .caller c ∈ s.waitSet k → (s.contexts k).done = true → s.DoneDue k) ∧
    ∀ s₁, Notifies s k s₁ →
      ¬(.worker ∈ s₁.waitSet k ∧ ∃ c, .caller c ∈ s₁.waitSet k) ∧
      ∀ s', NotifyOne s₁ k s' → s'.waitSet k = ∅ := by
  have hinv := inv_of_reachable hs
  have hwakeups := wakeups_of_reachable hs
  refine ⟨?_, fun c => hwakeups.done c k, ?_⟩
  · intro hpc
    exact ⟨hinv.task_eq_none_of_asleep hpc, hwakeups.stopped k hpc⟩
  · intro s₁ hn
    have hone := hinv.waitSet_subsingleton hn
    refine ⟨?_, fun s' hnotify => hnotify.waitSet_eq_empty hone⟩
    rintro ⟨hworker, c, hcaller⟩
    exact Waiter.noConfusion (hone hworker hcaller)

end

/-- The worker of a first call has released the lock but not yet notified, while the second call has
submitted its task and waits. -/
theorem exists_reachable_late :
    ∃ s, (system (α := Nat) (ε := String) (fun _ => 0) fun _ _ => True).Reachable s ∧
      s.callers 1 = .asleep 0 ∧ (s.contexts 0).task = some 1 ∧ s.DoneDue 0 := by
  have hinit : (system (α := Nat) (ε := String) (fun _ => 0) fun _ _ => True).Reachable {} :=
    ⟨_, rfl, .refl _⟩
  have hinvoked := hinit.tail (a := .caller 0) (.invoke rfl rfl)
  have hlocked := hinvoked.tail (a := .caller 0) (.acquire rfl rfl)
  have hcreated := hlocked.tail (a := .caller 0) (.create rfl rfl)
  have hsubmitted := hcreated.tail (a := .caller 0) (.submit rfl rfl (.none WorkerPc.noConfusion fun c => by
    by_cases hc : c = 0 <;> simp [State.submit, State.setContext, State.setCaller, hc]))
  have htaken := hsubmitted.tail (a := .worker 0) (.take Nat.one_pos rfl rfl rfl)
  have hcompleted := htaken.tail (a := .worker 0) (@Step.complete _ _ _ _ _ 0 0 (.ok 7) rfl trivial)
  have hdone := hcompleted.tail (a := .worker 0) (.markDone rfl)
  have hwoken := hdone.tail (a := .caller 0) (.wake (k := 0) rfl)
  have hseen := hwoken.tail (a := .caller 0) (.seeDone rfl rfl)
  have hended := hseen.tail (a := .caller 0) (@Step.getValue _ _ _ _ _ 0 0 7 rfl rfl)
  have hinvoked' := hended.tail (a := .caller 1) (.invoke rfl rfl)
  have hlocked' := hinvoked'.tail (a := .caller 1) (.acquire rfl rfl)
  have hsubmitted' := hlocked'.tail (a := .caller 1) (.submit rfl rfl (.none WorkerPc.noConfusion fun c => by
    by_cases hc : c = 0 <;> by_cases hc' : c = 1 <;>
      simp [State.submit, State.setContext, State.setCaller, State.take, State.setWorker, hc, hc']))
  exact ⟨_, hsubmitted', rfl, rfl, rfl⟩

/-- The late notification wakes the second caller, whose task the worker has yet to take. -/
theorem no_lost_wakeup_late :
    ∃ s, (system (α := Nat) (ε := String) (fun _ => 0) fun _ _ => True).Reachable s ∧
      .caller 1 ∈ s.waitSet 0 ∧ .worker ∉ s.waitSet 0 ∧ ∀ s', NotifyOne s 0 s' → s'.waitSet 0 = ∅ := by
  obtain ⟨s, hs, hpc, htask, hdue⟩ := exists_reachable_late
  obtain ⟨-, -, hnotifies⟩ := no_lost_wakeup hs 0
  obtain ⟨hnotboth, hempty⟩ := hnotifies s (.done hdue)
  exact ⟨s, hs, hpc, fun hworker => hnotboth ⟨hworker, 1, hpc⟩, hempty⟩

end DeepJit.Executor
