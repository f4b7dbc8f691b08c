import DeepJit.Library.Transition
import Mathlib.Logic.Function.Basic

/-!
# The thread executor

`ThreadExecutor` as a transition system. The callers of `run`, the workers and the clock take turns,
a critical section under `run_lock` or under the lock of a context is one step, and the wait sets of
the condition variables are explicit. A call of `run` is named by its task. Contexts are numbered in
the order of their creation, and each has one worker.
-/

namespace DeepJit.Executor

/-- How a call of `run` ends, or the destructor. -/
inductive Outcome (α ε : Type) where
  | returned (value : α)
  | raised (error : ε)
  | ioTimeout
  | invalidTimeout
  | noWorker
  | destroyed

inductive CallerPc (α ε : Type) where
  | idle
  /-- In front of `run_lock`. -/
  | queued
  /-- Inside `run_lock`, before the submission. -/
  | locked
  /-- In the wait set of the context. -/
  | asleep (context : Nat)
  /-- Out of the wait set, before the predicate is checked. -/
  | awake (context : Nat) (expired : Bool)
  | timedOut (context : Nat)
  /-- Before `result.get()`. -/
  | got (context : Nat)
  /-- In `stop`, after the context was marked. -/
  | stopping (context : Nat) (outcome : Outcome α ε)
  | ended (outcome : Outcome α ε)

/-- `ThreadExecutor::Context`. -/
structure Context where
  task : Option Nat := none
  done : Bool := false
  stopped : Bool := false

inductive WorkerPc where
  | ready
  | asleep
  | running (task : Nat)
  /-- The task has fulfilled its promise. Its captures are destroyed before `done` is set. -/
  | completed (task : Nat)
  /-- Between setting `done` and `notify_one`. -/
  | notifying
  | exited

structure State (α ε : Type) where
  runLock : Option Nat := none
  current : Option Nat := none
  numContexts : Nat := 0
  contexts : Nat → Context := fun _ => {}
  workers : Nat → WorkerPc := fun _ => .ready
  callers : Nat → CallerPc α ε := fun _ => .idle
  promises : Nat → Option (Except ε α) := fun _ => none
  /-- Whether the destructor has begun. -/
  closed : Bool := false
  /-- How often a task was invoked, where it was submitted, and whether it was destroyed instead of
  being invoked. -/
  executions : Nat → Nat := fun _ => 0
  home : Nat → Option Nat := fun _ => none
  dropped : Nat → Bool := fun _ => false

section

variable {α ε : Type}

namespace State

def setCaller (s : State α ε) (c : Nat) (pc : CallerPc α ε) : State α ε :=
  { s with callers := Function.update s.callers c pc }

def setWorker (s : State α ε) (k : Nat) (pc : WorkerPc) : State α ε :=
  { s with workers := Function.update s.workers k pc }

def setContext (s : State α ε) (k : Nat) (ctx : Context) : State α ε :=
  { s with contexts := Function.update s.contexts k ctx }

/-- `context->task = std::move(task)` with `done` reset. -/
def submit (s : State α ε) (k c : Nat) : State α ε :=
  { s.setContext k { s.contexts k with done := false, task := some c } with
    home := Function.update s.home c (some k) }

/-- Mark the context of a worker as stopped. -/
def markStopped (s : State α ε) (k : Nat) : State α ε :=
  s.setContext k { s.contexts k with stopped := true }

/-- The worker moves the task out of the context and invokes it. -/
def take (s : State α ε) (k t : Nat) : State α ε :=
  { (s.setContext k { s.contexts k with task := none }).setWorker k (.running t) with
    executions := Function.update s.executions t (s.executions t + 1) }

/-- The worker of a stopped context ends, and destroys a task that is still there. -/
def exit (s : State α ε) (k : Nat) : State α ε :=
  { (s.setContext k { s.contexts k with task := none }).setWorker k .exited with
    dropped := fun t => if (s.contexts k).task = some t then true else s.dropped t }

end State

/-- `notify_one` on the condition variable of a context wakes one thread of its wait set, if there
is any. -/
inductive NotifyOne (s : State α ε) (k : Nat) : State α ε → Prop where
  | none (hworker : s.workers k ≠ .asleep) (hcallers : ∀ c, s.callers c ≠ .asleep k) :
      NotifyOne s k s
  | worker (hworker : s.workers k = .asleep) : NotifyOne s k (s.setWorker k .ready)
  | caller {c : Nat} (hcaller : s.callers c = .asleep k) :
      NotifyOne s k (s.setCaller c (.awake k false))

inductive Action where
  | caller (c : Nat)
  | worker (k : Nat)
  | clock (c : Nat)

/-- One step of a caller, of a worker or of the clock. Call `c` has the timeout `timeout c`, in
milliseconds, and its task ends with one of the results `tasks c`. -/
inductive Step (timeout : Nat → Int) (tasks : Nat → Except ε α → Prop) :
    State α ε → Action → State α ε → Prop where
  /-- `run` is entered, and rejects a negative timeout. -/
  | invoke {s : State α ε} {c : Nat} (hpc : s.callers c = .idle) (hopen : s.closed = false) :
      Step timeout tasks s (.caller c)
        (s.setCaller c (if timeout c < 0 then .ended .invalidTimeout else .queued))
  | acquire {s : State α ε} {c : Nat} (hpc : s.callers c = .queued) (hlock : s.runLock = none) :
      Step timeout tasks s (.caller c) ({ s with runLock := some c }.setCaller c .locked)
  | create {s : State α ε} {c : Nat} (hpc : s.callers c = .locked) (hcontext : s.current = none) :
      Step timeout tasks s (.caller c)
        { s with current := some s.numContexts, numContexts := s.numContexts + 1 }
  /-- The worker thread cannot be started. -/
  | startFails {s : State α ε} {c : Nat} (hpc : s.callers c = .locked)
      (hcontext : s.current = none) :
      Step timeout tasks s (.caller c) ({ s with runLock := none }.setCaller c (.ended .noWorker))
  /-- The task is stored, the worker is notified, and the caller joins the wait set, all under the
  lock of the context. -/
  | submit {s s' : State α ε} {c k : Nat} (hpc : s.callers c = .locked)
      (hcontext : s.current = some k) (hnotify : NotifyOne (s.submit k c) k s') :
      Step timeout tasks s (.caller c) (s'.setCaller c (.asleep k))
  | wake {s : State α ε} {c k : Nat} (hpc : s.callers c = .asleep k) :
      Step timeout tasks s (.caller c) (s.setCaller c (.awake k false))
  /-- The deadline passes, in the wait set or between it and the check of the predicate. -/
  | expire {s : State α ε} {c k : Nat}
      (hpc : s.callers c = .asleep k ∨ s.callers c = .awake k false)
      (htimeout : 0 < timeout c) : Step timeout tasks s (.clock c) (s.setCaller c (.awake k true))
  | seeDone {s : State α ε} {c k : Nat} {expired : Bool} (hpc : s.callers c = .awake k expired)
      (hdone : (s.contexts k).done = true) :
      Step timeout tasks s (.caller c) (s.setCaller c (.got k))
  | seeExpired {s : State α ε} {c k : Nat} (hpc : s.callers c = .awake k true)
      (hdone : (s.contexts k).done = false) :
      Step timeout tasks s (.caller c) (s.setCaller c (.timedOut k))
  | sleepAgain {s : State α ε} {c k : Nat} (hpc : s.callers c = .awake k false)
      (hdone : (s.contexts k).done = false) :
      Step timeout tasks s (.caller c) (s.setCaller c (.asleep k))
  | getValue {s : State α ε} {c k : Nat} {value : α} (hpc : s.callers c = .got k)
      (hpromise : s.promises c = some (.ok value)) :
      Step timeout tasks s (.caller c)
        ({ s with runLock := none }.setCaller c (.ended (.returned value)))
  | getError {s : State α ε} {c k : Nat} {error : ε} (hpc : s.callers c = .got k)
      (hpromise : s.promises c = some (.error error)) :
      Step timeout tasks s (.caller c) ((s.markStopped k).setCaller c (.stopping k (.raised error)))
  | giveUp {s : State α ε} {c k : Nat} (hpc : s.callers c = .timedOut k) :
      Step timeout tasks s (.caller c) ((s.markStopped k).setCaller c (.stopping k .ioTimeout))
  /-- The rest of `stop`, and the end of the call. -/
  | detach {s s' : State α ε} {c k : Nat} {outcome : Outcome α ε}
      (hpc : s.callers c = .stopping k outcome) (hnotify : NotifyOne s k s') :
      Step timeout tasks s (.caller c)
        ({ s' with current := none, runLock := none }.setCaller c (.ended outcome))
  /-- The destructor, which no call runs concurrently with. -/
  | destroy {s : State α ε} {c k : Nat} (hpc : s.callers c = .idle) (hopen : s.closed = false)
      (halone : ∀ d, s.callers d = .idle ∨ ∃ outcome, s.callers d = .ended outcome)
      (hcontext : s.current = some k) :
      Step timeout tasks s (.caller c)
        ({ s.markStopped k with runLock := some c, closed := true }.setCaller c (.stopping k .destroyed))
  | destroyEmpty {s : State α ε} {c : Nat} (hpc : s.callers c = .idle) (hopen : s.closed = false)
      (halone : ∀ d, s.callers d = .idle ∨ ∃ outcome, s.callers d = .ended outcome)
      (hcontext : s.current = none) :
      Step timeout tasks s (.caller c) ({ s with closed := true }.setCaller c (.ended .destroyed))
  | workerSleep {s : State α ε} {k : Nat} (hk : k < s.numContexts) (hpc : s.workers k = .ready)
      (htask : (s.contexts k).task = none) (hstopped : (s.contexts k).stopped = false) :
      Step timeout tasks s (.worker k) (s.setWorker k .asleep)
  | workerWake {s : State α ε} {k : Nat} (hpc : s.workers k = .asleep) :
      Step timeout tasks s (.worker k) (s.setWorker k .ready)
  | take {s : State α ε} {k t : Nat} (hk : k < s.numContexts) (hpc : s.workers k = .ready)
      (htask : (s.contexts k).task = some t) (hstopped : (s.contexts k).stopped = false) :
      Step timeout tasks s (.worker k) (s.take k t)
  | exit {s : State α ε} {k : Nat} (hk : k < s.numContexts) (hpc : s.workers k = .ready)
      (hstopped : (s.contexts k).stopped = true) : Step timeout tasks s (.worker k) (s.exit k)
  | complete {s : State α ε} {k t : Nat} {result : Except ε α} (hpc : s.workers k = .running t)
      (hresult : tasks t result) : Step timeout tasks s (.worker k)
        ({ s with promises := Function.update s.promises t (some result) }.setWorker k (.completed t))
  | markDone {s : State α ε} {k t : Nat} (hpc : s.workers k = .completed t) :
      Step timeout tasks s (.worker k)
        ((s.setContext k { s.contexts k with done := true }).setWorker k .notifying)
  | notify {s s' : State α ε} {k : Nat} (hpc : s.workers k = .notifying)
      (hnotify : NotifyOne s k s') :
      Step timeout tasks s (.worker k) (s'.setWorker k .ready)

/-- The executor from its construction on. -/
def system (timeout : Nat → Int) (tasks : Nat → Except ε α → Prop) :
    TransitionSystem (State α ε) Action where
  init s := s = {}
  step := Step timeout tasks

end

end DeepJit.Executor
