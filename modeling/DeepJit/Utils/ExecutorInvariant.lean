import DeepJit.Utils.Executor

/-!
# The invariant of the thread executor

A context and its worker hold at most one task, the caller of an unfinished task is the only one
inside `run_lock`, and it watches the current context. Everything a retired worker still does
concerns its own context and the tasks that were submitted to it.
-/

namespace DeepJit.Executor

section

variable {α ε : Type} {timeout : Nat → Int} {tasks : Nat → Except ε α → Prop} {s s' : State α ε}
  {c k t : Nat}

/-- Whether a caller owns `run_lock`. -/
def CallerPc.Inside : CallerPc α ε → Prop
  | .idle | .queued | .ended _ => False
  | .locked | .asleep _ | .awake _ _ | .timedOut _ | .got _ | .stopping _ _ => True

/-- The context whose completion a caller waits for. -/
def CallerPc.watched : CallerPc α ε → Option Nat
  | .asleep k | .awake k _ | .timedOut k | .got k => some k
  | .idle | .queued | .locked | .stopping _ _ | .ended _ => none

theorem CallerPc.inside_of_watched {pc : CallerPc α ε} (h : pc.watched = some k) : pc.Inside := by
  cases pc <;> simp_all [watched, Inside]

/-- The task a worker has taken and not yet destroyed. -/
def WorkerPc.held : WorkerPc → Option Nat
  | .running t | .completed t => some t
  | .ready | .asleep | .notifying | .exited => none

@[simp] theorem WorkerPc.held_running : (WorkerPc.running t).held = some t := rfl
@[simp] theorem WorkerPc.held_completed : (WorkerPc.completed t).held = some t := rfl
@[simp] theorem WorkerPc.held_notifying : WorkerPc.notifying.held = none := rfl
@[simp] theorem WorkerPc.held_exited : WorkerPc.exited.held = none := rfl

namespace State

def Holds (s : State α ε) (k t : Nat) : Prop :=
  (s.contexts k).task = some t ∨ (s.workers k).held = some t

def Vacant (s : State α ε) (k : Nat) : Prop :=
  (s.contexts k).task = none ∧ (s.workers k).held = none

def Unsubmitted (s : State α ε) (c : Nat) : Prop :=
  s.home c = none ∧ s.executions c = 0 ∧ s.promises c = none ∧ s.dropped c = false

/-- What the `done` flag of a context says about the task that its caller submitted. -/
def Awaits (s : State α ε) (c k : Nat) : Prop :=
  ((s.contexts k).done = false → s.Holds k c) ∧
    ((s.contexts k).done = true → s.promises c ≠ none ∧ s.Vacant k)

/-- The caller owns the current context, which is not retired. -/
def Owns (s : State α ε) (c k : Nat) : Prop :=
  s.current = some k ∧ (s.contexts k).stopped = false ∧ s.home c = some k

end State

open State

def OutcomeInv (timeout : Nat → Int) (s : State α ε) (c : Nat) : Outcome α ε → Prop
  | .returned value => s.promises c = some (.ok value)
  | .raised error => s.promises c = some (.error error)
  | .ioTimeout => 0 < timeout c
  | .invalidTimeout => timeout c < 0 ∧ s.Unsubmitted c
  | .noWorker | .destroyed => s.Unsubmitted c

def CallerInv (timeout : Nat → Int) (s : State α ε) (c : Nat) : CallerPc α ε → Prop
  | .idle | .queued | .locked => s.Unsubmitted c
  | .asleep k => s.Owns c k ∧ s.Awaits c k
  | .awake k expired => s.Owns c k ∧ s.Awaits c k ∧ (expired = true → 0 < timeout c)
  | .timedOut k => s.Owns c k ∧ 0 < timeout c
  | .got k => s.Owns c k ∧ s.promises c ≠ none ∧ s.Vacant k
  | .stopping k outcome => s.current = some k ∧ (s.contexts k).stopped = true ∧
      OutcomeInv timeout s c outcome
  | .ended outcome => OutcomeInv timeout s c outcome

/-- A context, its worker and the task they hold. -/
structure ContextInv (s : State α ε) (k : Nat) : Prop where
  fresh : s.numContexts ≤ k → s.contexts k = {} ∧ s.workers k = .ready
  unstopped : k < s.numContexts → (s.contexts k).stopped = false → s.current = some k
  waiting : ∀ t, (s.contexts k).task = some t →
    (s.workers k = .ready ∨ s.workers k = .notifying) ∧ s.executions t = 0 ∧ s.promises t = none ∧
    s.dropped t = false
  running : ∀ t, s.workers k = .running t →
    (s.contexts k).task = none ∧ s.executions t = 1 ∧ s.promises t = none ∧ s.dropped t = false
  completed : ∀ t, s.workers k = .completed t →
    (s.contexts k).task = none ∧ s.executions t = 1 ∧ s.promises t ≠ none ∧ s.dropped t = false
  exited : s.workers k = .exited → (s.contexts k).stopped = true
  owner : ∀ t, s.Holds k t →
    s.home t = some k ∧ ((s.callers t).watched = some k ∨ (s.contexts k).stopped = true)

structure TaskInv (tasks : Nat → Except ε α → Prop) (s : State α ε) (t : Nat) : Prop where
  once : s.executions t ≤ 1
  promised : ∀ result, s.promises t = some result → tasks t result ∧ s.executions t = 1
  dropped : s.dropped t = true → s.executions t = 0 ∧ ∃ k, s.home t = some k ∧ s.workers k = .exited

structure Inv (timeout : Nat → Int) (tasks : Nat → Except ε α → Prop) (s : State α ε) : Prop where
  lock : ∀ c, (s.callers c).Inside ↔ s.runLock = some c
  current_lt : ∀ k, s.current = some k → k < s.numContexts
  /-- The current context is marked as stopped only inside `stop`. -/
  retiring : ∀ k, s.current = some k → (s.contexts k).stopped = true →
    ∃ c outcome, s.callers c = .stopping k outcome
  context : ∀ k, ContextInv s k
  task : ∀ t, TaskInv tasks s t
  caller : ∀ c, CallerInv timeout s c (s.callers c)

theorem inv_init : Inv timeout tasks ({} : State α ε) := by
  refine ⟨?_, ?_, ?_, ?_, ?_, ?_⟩
  · simp [CallerPc.Inside]
  · simp
  · simp
  · intro k
    constructor <;> simp [Holds, WorkerPc.held]
  · intro t
    constructor <;> simp
  · simp [CallerInv, Unsubmitted]

/-! ### What the invariant says about a task -/

theorem ContextInv.held_of_waiting (h : ContextInv s k) (htask : (s.contexts k).task = some t) :
    (s.workers k).held = none := by
  rcases (h.waiting t htask).1 with hpc | hpc <;> rw [hpc] <;> rfl

theorem Inv.alone (h : Inv timeout tasks s) (hc : (s.callers c).Inside) {d : Nat} (hd : d ≠ c) :
    ¬(s.callers d).Inside := by
  intro hinside
  have hlock := (h.lock c).mp hc
  have hlock' := (h.lock d).mp hinside
  rw [hlock] at hlock'
  exact hd (Option.some.inj hlock').symm

theorem CallerInv.owns {pc : CallerPc α ε} (h : CallerInv timeout s c pc)
    (hwatched : pc.watched = some k) :
    s.Owns c k := by
  cases pc with
  | asleep j | awake j | timedOut j | got j =>
      obtain rfl : j = k := Option.some.inj hwatched
      exact h.1
  | idle | queued | locked | stopping | ended => simp [CallerPc.watched] at hwatched

theorem Inv.owns_of_watched (h : Inv timeout tasks s) (hwatched : (s.callers c).watched = some k) :
    s.Owns c k :=
  (h.caller c).owns hwatched

/-- A task that was submitted to a retired context has no caller that waits for it. -/
theorem Inv.over_of_stopped (h : Inv timeout tasks s) (hhome : s.home c = some k)
    (hstopped : (s.contexts k).stopped = true) :
    (∃ j outcome, s.callers c = .stopping j outcome) ∨ ∃ outcome, s.callers c = .ended outcome := by
  have hwatched : (s.callers c).watched = none := by
    apply Option.eq_none_iff_forall_ne_some.mpr
    intro j hj
    obtain ⟨-, hlive, hown⟩ := h.owns_of_watched hj
    obtain rfl : k = j := Option.some.inj (hhome.symm.trans hown)
    simp [hstopped] at hlive
  have hcaller := h.caller c
  cases hpc : s.callers c <;> rw [hpc] at hwatched hcaller <;> simp [CallerPc.watched, CallerInv, Unsubmitted, hhome] at hwatched hcaller ⊢

/-- The caller of a task that a context holds, while the context is not retired. -/
theorem Inv.watcher (h : Inv timeout tasks s) (hholds : s.Holds k t)
    (hlive : (s.contexts k).stopped = false) :
    (s.callers t).watched = some k := by
  rcases ((h.context k).owner t hholds).2 with hwatched | hstopped
  · exact hwatched
  · simp [hlive] at hstopped

/-! ### Steps of a worker -/

/-- What a step of worker `k` leaves alone. -/
structure OnlyWorker (k : Nat) (s s' : State α ε) : Prop where
  runLock : s'.runLock = s.runLock
  current : s'.current = s.current
  numContexts : s'.numContexts = s.numContexts
  callers : s'.callers = s.callers
  home : s'.home = s.home
  contexts : ∀ j, j ≠ k → s'.contexts j = s.contexts j
  workers : ∀ j, j ≠ k → s'.workers j = s.workers j
  stopped : (s'.contexts k).stopped = (s.contexts k).stopped
  elsewhere : ∀ t, s.home t ≠ some k →
    s'.executions t = s.executions t ∧ s'.promises t = s.promises t ∧ s'.dropped t = s.dropped t
  promised : ∀ t result, s.promises t = some result → s'.promises t = some result

namespace OnlyWorker

theorem holds (h : OnlyWorker k s s') {j : Nat} (hj : j ≠ k) (t : Nat) :
    s'.Holds j t ↔ s.Holds j t := by
  unfold State.Holds
  rw [h.contexts j hj, h.workers j hj]

theorem vacant (h : OnlyWorker k s s') {j : Nat} (hj : j ≠ k) : s'.Vacant j ↔ s.Vacant j := by
  unfold State.Vacant
  rw [h.contexts j hj, h.workers j hj]

theorem promises_ne_none (h : OnlyWorker k s s') (hpromise : s.promises t ≠ none) :
    s'.promises t ≠ none := by
  obtain ⟨result, hresult⟩ := Option.ne_none_iff_exists'.mp hpromise
  simp [h.promised t result hresult]

theorem unsubmitted (h : OnlyWorker k s s') (hc : s.Unsubmitted c) : s'.Unsubmitted c := by
  obtain ⟨hhome, hrest⟩ := hc
  obtain ⟨hexecutions, hpromises, hdropped⟩ := h.elsewhere c (by simp [hhome])
  unfold State.Unsubmitted
  rw [h.home, hexecutions, hpromises, hdropped]
  exact ⟨hhome, hrest⟩

theorem stopped_eq (h : OnlyWorker k s s') (j : Nat) :
    (s'.contexts j).stopped = (s.contexts j).stopped := by
  by_cases hj : j = k
  · rw [hj, h.stopped]
  · rw [h.contexts j hj]

theorem owns (h : OnlyWorker k s s') {j : Nat} (hc : s.Owns c j) : s'.Owns c j := by
  obtain ⟨hcurrent, hstopped, hhome⟩ := hc
  exact ⟨h.current.trans hcurrent, by rw [h.stopped_eq, hstopped], by rw [h.home, hhome]⟩

theorem awaits (h : OnlyWorker k s s') {j : Nat} (hj : j ≠ k) (hc : s.Awaits c j) :
    s'.Awaits c j := by
  obtain ⟨hundone, hdone⟩ := hc
  unfold State.Awaits
  rw [h.contexts j hj, h.holds hj, h.vacant hj]
  exact ⟨hundone, fun hd => ⟨h.promises_ne_none (hdone hd).1, (hdone hd).2⟩⟩

theorem outcome (h : OnlyWorker k s s') {outcome : Outcome α ε}
    (hc : OutcomeInv timeout s c outcome) :
    OutcomeInv timeout s' c outcome := by
  cases outcome with
  | returned value => exact h.promised c _ hc
  | raised error => exact h.promised c _ hc
  | ioTimeout => exact hc
  | invalidTimeout => exact ⟨hc.1, h.unsubmitted hc.2⟩
  | noWorker | destroyed => exact h.unsubmitted hc

theorem context (h : OnlyWorker k s s') {j : Nat} (hj : j ≠ k) (hc : ContextInv s j) :
    ContextInv s' j := by
  have hsame (t : Nat) (ht : s.Holds j t) :=
    h.elsewhere t (by rw [(hc.owner t ht).1]; simpa using hj)
  constructor
  · rw [h.numContexts, h.contexts j hj, h.workers j hj]
    exact hc.fresh
  · rw [h.numContexts, h.contexts j hj, h.current]
    exact hc.unstopped
  · intro t htask
    rw [h.contexts j hj] at htask
    obtain ⟨hexecutions, hpromises, hdropped⟩ := hsame t (.inl htask)
    rw [h.workers j hj, hexecutions, hpromises, hdropped]
    exact hc.waiting t htask
  · intro t hpc
    rw [h.workers j hj] at hpc
    obtain ⟨hexecutions, hpromises, hdropped⟩ := hsame t (.inr (by simp [hpc]))
    rw [h.contexts j hj, hexecutions, hpromises, hdropped]
    exact hc.running t hpc
  · intro t hpc
    rw [h.workers j hj] at hpc
    obtain ⟨hexecutions, hpromises, hdropped⟩ := hsame t (.inr (by simp [hpc]))
    rw [h.contexts j hj, hexecutions, hpromises, hdropped]
    exact hc.completed t hpc
  · rw [h.workers j hj, h.contexts j hj]
    exact hc.exited
  · intro t ht
    rw [h.home, h.callers, h.contexts j hj]
    exact hc.owner t ((h.holds hj t).mp ht)

theorem task (h : OnlyWorker k s s') (ht : TaskInv tasks s t) (hhome : s.home t ≠ some k) :
    TaskInv tasks s' t := by
  obtain ⟨hexecutions, hpromises, hdropped⟩ := h.elsewhere t hhome
  constructor
  · rw [hexecutions]
    exact ht.once
  · rw [hexecutions, hpromises]
    exact ht.promised
  · rw [hexecutions, hdropped, h.home]
    intro hd
    obtain ⟨hnever, j, hj, hexited⟩ := ht.dropped hd
    have hjk : j ≠ k := by
      rintro rfl
      exact hhome hj
    exact ⟨hnever, j, hj, by rw [h.workers j hjk, hexited]⟩

/-- It remains to look at the context of the worker, at the tasks submitted to it, and at the caller
that waits for it. -/
theorem inv (h : OnlyWorker k s s') (hinv : Inv timeout tasks s) (hcontext : ContextInv s' k)
    (htask : ∀ t, s.home t = some k → TaskInv tasks s' t)
    (hawaits : ∀ c, (s.callers c).watched = some k → s.Awaits c k → s'.Awaits c k)
    (hvacant : s.Vacant k → s'.Vacant k) : Inv timeout tasks s' := by
  have hpc (c : Nat) : CallerInv timeout s' c (s.callers c) := by
    have hc := hinv.caller c
    have haw (j : Nat) (hwatched : (s.callers c).watched = some j) (hj : s.Awaits c j) : s'.Awaits c j := by
      by_cases hjk : j = k
      · subst hjk
        exact hawaits c hwatched hj
      · exact h.awaits hjk hj
    have hvac (j : Nat) (hj : s.Vacant j) : s'.Vacant j := by
      by_cases hjk : j = k
      · subst hjk
        exact hvacant hj
      · exact (h.vacant hjk).mpr hj
    cases hcaller : s.callers c with rw [hcaller] at hc haw
    | idle | queued | locked => exact h.unsubmitted hc
    | asleep j => exact ⟨h.owns hc.1, haw j rfl hc.2⟩
    | awake j expired => exact ⟨h.owns hc.1, haw j rfl hc.2.1, hc.2.2⟩
    | timedOut j => exact ⟨h.owns hc.1, hc.2⟩
    | got j => exact ⟨h.owns hc.1, h.promises_ne_none hc.2.1, hvac j hc.2.2⟩
    | stopping j outcome =>
        obtain ⟨hcurrent, hstopped, houtcome⟩ := hc
        exact ⟨h.current.trans hcurrent, by rw [h.stopped_eq, hstopped], h.outcome houtcome⟩
    | ended outcome => exact h.outcome hc
  constructor
  · rw [h.callers, h.runLock]
    exact hinv.lock
  · rw [h.current, h.numContexts]
    exact hinv.current_lt
  · intro j
    rw [h.current, h.callers, h.stopped_eq]
    exact hinv.retiring j
  · intro j
    by_cases hjk : j = k
    · subst hjk
      exact hcontext
    · exact h.context hjk (hinv.context j)
  · intro t
    by_cases hhome : s.home t = some k
    · exact htask t hhome
    · exact h.task (hinv.task t) hhome
  · rw [h.callers]
    exact hpc

end OnlyWorker

/-- Whether a worker is somewhere in its loop without a task. -/
def WorkerPc.Looping : WorkerPc → Prop
  | .ready | .asleep | .notifying => True
  | .running _ | .completed _ | .exited => False

theorem WorkerPc.Looping.held {pc : WorkerPc} (h : pc.Looping) : pc.held = none := by
  cases pc <;> simp_all [WorkerPc.Looping, WorkerPc.held]

theorem onlyWorker_setWorker (s : State α ε) (k : Nat) (pc : WorkerPc) :
    OnlyWorker k s (s.setWorker k pc) := by
  constructor <;> simp +contextual [setWorker]

theorem onlyWorker_take (hinv : Inv timeout tasks s) (htask : (s.contexts k).task = some t) :
    OnlyWorker k s (s.take k t) := by
  have hhome : s.home t = some k := ((hinv.context k).owner t (.inl htask)).1
  have hne (d : Nat) (hd : s.home d ≠ some k) : d ≠ t := by
    rintro rfl
    exact hd hhome
  constructor <;> simp +contextual [State.take, setWorker, setContext]
  intro d hd
  simp [hne d hd]

theorem onlyWorker_exit (hinv : Inv timeout tasks s) : OnlyWorker k s (s.exit k) := by
  constructor <;> simp +contextual [State.exit, setWorker, setContext]
  intro d hd htask
  exact absurd ((hinv.context k).owner d (.inl htask)).1 hd

theorem onlyWorker_complete (hinv : Inv timeout tasks s) (hpc : s.workers k = .running t)
    (result : Except ε α) :
    OnlyWorker k s ({ s with promises := Function.update s.promises t (some result) }.setWorker k (.completed t)) := by
  obtain ⟨-, -, hpromise, -⟩ := (hinv.context k).running t hpc
  have hhome : s.home t = some k := ((hinv.context k).owner t (.inr (by simp [hpc]))).1
  constructor <;> simp +contextual [setWorker]
  · intro d hd
    have hne : d ≠ t := by
      rintro rfl
      exact hd hhome
    simp [hne]
  · intro d r hr
    have hne : d ≠ t := by
      rintro rfl
      simp [hpromise] at hr
    simpa [hne] using hr

theorem onlyWorker_markDone (s : State α ε) (k : Nat) :
    OnlyWorker k s ((s.setContext k { s.contexts k with done := true }).setWorker k .notifying) := by
  constructor <;> simp +contextual [setWorker, setContext]

/-- Falling asleep, waking up and going back to the start of the loop. -/
theorem Inv.setWorker_looping (h : Inv timeout tasks s) (hk : k < s.numContexts) {pc : WorkerPc}
    (hbefore : (s.workers k).Looping) (hafter : pc.Looping)
    (hwaiting : (s.contexts k).task ≠ none → pc = .ready ∨ pc = .notifying) :
    Inv timeout tasks (s.setWorker k pc) := by
  have hheld : (s.workers k).held = none := hbefore.held
  have hheld' : pc.held = none := hafter.held
  have hc := h.context k
  have hholds (t : Nat) : (s.setWorker k pc).Holds k t ↔ s.Holds k t := by
    simp [State.Holds, setWorker, hheld, hheld']
  apply (onlyWorker_setWorker s k pc).inv h
  · constructor
    · intro hfresh
      exact absurd hk (Nat.not_lt.mpr hfresh)
    · exact hc.unstopped
    · intro t htask
      refine ⟨?_, (hc.waiting t htask).2⟩
      simpa [setWorker] using hwaiting (by simpa [setWorker] using (Option.ne_none_iff_exists'.mpr ⟨t, htask⟩))
    · intro t hpc
      simp only [setWorker, Function.update_self] at hpc
      simp [hpc, WorkerPc.Looping] at hafter
    · intro t hpc
      simp only [setWorker, Function.update_self] at hpc
      simp [hpc, WorkerPc.Looping] at hafter
    · intro hpc
      simp only [setWorker, Function.update_self] at hpc
      simp [hpc, WorkerPc.Looping] at hafter
    · intro t ht
      exact hc.owner t ((hholds t).mp ht)
  · intro t hhome
    obtain ⟨honce, hpromised, hdropped⟩ := h.task t
    refine ⟨honce, hpromised, ?_⟩
    intro hd
    obtain ⟨hnever, j, hj, hexited⟩ := hdropped hd
    obtain rfl : k = j := Option.some.inj (hhome.symm.trans hj)
    simp [hexited, WorkerPc.Looping] at hbefore
  · intro c _ hc
    obtain ⟨hundone, hdone⟩ := hc
    refine ⟨fun hd => (hholds c).mpr (hundone hd), fun hd => ⟨(hdone hd).1, (hdone hd).2.1, ?_⟩⟩
    simpa [setWorker] using hheld'
  · intro hv
    simpa [State.Vacant, setWorker, hheld'] using hv.1

theorem Inv.take (h : Inv timeout tasks s) (hk : k < s.numContexts)
    (htask : (s.contexts k).task = some t) :
    Inv timeout tasks (s.take k t) := by
  have hc := h.context k
  obtain ⟨-, hnever, hpromise, hkept⟩ := hc.waiting t htask
  have hheld : (s.workers k).held = none := hc.held_of_waiting htask
  obtain ⟨hhome, hwatched⟩ := hc.owner t (.inl htask)
  have hholds (d : Nat) : (s.take k t).Holds k d ↔ s.Holds k d := by
    simp [State.Holds, State.take, setWorker, setContext, htask, hheld]
  have hnotvacant : ¬s.Vacant k := by simp [State.Vacant, htask]
  apply (onlyWorker_take h htask).inv h
  · constructor
    · intro hfresh
      exact absurd hk (Nat.not_lt.mpr hfresh)
    · simpa [State.take, setWorker, setContext] using hc.unstopped
    · simp [State.take, setWorker, setContext]
    · simp [State.take, setWorker, setContext, hnever, hpromise, hkept]
    · simp [State.take, setWorker, setContext]
    · simp [State.take, setWorker, setContext]
    · intro d hd
      simpa [State.take, setWorker, setContext] using hc.owner d ((hholds d).mp hd)
  · intro d _
    by_cases hd : d = t
    · subst hd
      constructor <;> simp [State.take, setWorker, setContext, hnever, hpromise, hkept]
    · obtain ⟨honce, hpromised, hdropped⟩ := h.task d
      refine ⟨?_, ?_, ?_⟩
      · simpa [State.take, setWorker, setContext, hd] using honce
      · simpa [State.take, setWorker, setContext, hd] using hpromised
      · intro hdrop
        obtain ⟨hnever', j, hj, hexited⟩ := hdropped hdrop
        have hjk : j ≠ k := by
          rintro rfl
          have hpc := (hc.waiting t htask).1
          simp [hexited] at hpc
        exact ⟨by simpa [State.take, hd] using hnever', j, hj,
          by simpa [State.take, setWorker, setContext, hjk] using hexited⟩
  · intro c _ haw
    have hundone : (s.contexts k).done = false := by
      by_contra hdone
      exact hnotvacant (haw.2 (by simpa using hdone)).2
    have hdone' : ((s.take k t).contexts k).done = false := by
      simpa [State.take, setWorker, setContext] using hundone
    exact ⟨fun _ => (hholds c).mpr (haw.1 hundone), fun hd => by simp [hdone'] at hd⟩
  · intro hv
    exact absurd hv hnotvacant

theorem Inv.exit (h : Inv timeout tasks s) (hk : k < s.numContexts) (hpc : s.workers k = .ready)
    (hstopped : (s.contexts k).stopped = true) : Inv timeout tasks (s.exit k) := by
  have hc := h.context k
  apply (onlyWorker_exit h).inv h
  · constructor
    · intro hfresh
      exact absurd hk (Nat.not_lt.mpr hfresh)
    all_goals simp [State.exit, setWorker, setContext, State.Holds, hstopped]
  · intro d hhome
    obtain ⟨honce, hpromised, hdropped⟩ := h.task d
    refine ⟨honce, hpromised, ?_⟩
    intro hd
    by_cases htask : (s.contexts k).task = some d
    · obtain ⟨-, hnever, -, -⟩ := hc.waiting d htask
      exact ⟨hnever, k, hhome, by simp [State.exit, setWorker, setContext]⟩
    · have hdrop : s.dropped d = true := by simpa [State.exit, htask] using hd
      obtain ⟨-, j, hj, hexited⟩ := hdropped hdrop
      obtain rfl : k = j := Option.some.inj (hhome.symm.trans hj)
      simp [hpc] at hexited
  · intro c hwatched
    simp [(h.owns_of_watched hwatched).2.1] at hstopped
  · intro _
    simp [State.Vacant, State.exit, setWorker, setContext]

theorem Inv.complete (h : Inv timeout tasks s) (hpc : s.workers k = .running t)
    {result : Except ε α} (hresult : tasks t result) :
    Inv timeout tasks
      ({ s with promises := Function.update s.promises t (some result) }.setWorker k (.completed t)) := by
  have hc := h.context k
  obtain ⟨hslot, honce, hpromise, hkept⟩ := hc.running t hpc
  have hheld : (s.workers k).held = some t := by simp [hpc]
  apply (onlyWorker_complete h hpc result).inv h
  · constructor
    · intro hfresh
      have hready := (hc.fresh hfresh).2
      simp [hpc] at hready
    · exact hc.unstopped
    · simp [setWorker, hslot]
    · simp [setWorker]
    · simp [setWorker, hslot, honce, hkept]
    · simp [setWorker]
    · simpa [State.Holds, setWorker, hslot, hheld] using hc.owner
  · intro d _
    obtain ⟨honce', hpromised, hdropped⟩ := h.task d
    refine ⟨honce', ?_, ?_⟩
    · by_cases hd : d = t
      · subst hd
        simpa [setWorker, honce] using hresult
      · simpa [setWorker, hd] using hpromised
    · intro hd
      obtain ⟨hnever, j, hj, hexited⟩ := hdropped hd
      have hjk : j ≠ k := by
        rintro rfl
        simp [hpc] at hexited
      exact ⟨hnever, j, hj, by simpa [setWorker, hjk] using hexited⟩
  · intro c _ haw
    have hundone : (s.contexts k).done = false := by
      by_contra hdone
      have hv := (haw.2 (by simpa using hdone)).2.2
      simp [hheld] at hv
    refine ⟨fun _ => ?_, fun hd => by simp [setWorker, hundone] at hd⟩
    have hholds := haw.1 hundone
    simpa [State.Holds, setWorker, hslot, hheld] using hholds
  · intro hv
    simp [State.Vacant, hheld] at hv

theorem Inv.markDone (h : Inv timeout tasks s) (hpc : s.workers k = .completed t) :
    Inv timeout tasks ((s.setContext k { s.contexts k with done := true }).setWorker k .notifying) := by
  have hc := h.context k
  obtain ⟨hslot, honce, hpromise, hkept⟩ := hc.completed t hpc
  have hheld : (s.workers k).held = some t := by simp [hpc]
  apply (onlyWorker_markDone s k).inv h
  · constructor
    · intro hfresh
      have hready := (hc.fresh hfresh).2
      simp [hpc] at hready
    · simpa [setWorker, setContext] using hc.unstopped
    all_goals simp [setWorker, setContext, State.Holds, hslot]
  · intro d hhome
    obtain ⟨honce', hpromised, hdropped⟩ := h.task d
    refine ⟨honce', hpromised, ?_⟩
    intro hd
    obtain ⟨-, j, hj, hexited⟩ := hdropped hd
    obtain rfl : k = j := Option.some.inj (hhome.symm.trans hj)
    simp [hpc] at hexited
  · intro c hwatched haw
    refine ⟨fun hd => by simp [setWorker, setContext] at hd, fun _ => ⟨?_, ?_⟩⟩
    · -- the caller that waits for the context is the one whose task the worker holds
      have hlive := (h.owns_of_watched hwatched).2.1
      have hinside : (s.callers t).Inside :=
        CallerPc.inside_of_watched (h.watcher (.inr hheld) hlive)
      have hct : t = c := by
        by_contra hne
        exact h.alone (CallerPc.inside_of_watched hwatched) hne hinside
      subst hct
      exact hpromise
    · simp [State.Vacant, setWorker, setContext, hslot]
  · intro hv
    simp [State.Vacant, hheld] at hv

end

end DeepJit.Executor
