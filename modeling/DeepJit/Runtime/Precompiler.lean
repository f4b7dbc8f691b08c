import DeepJit.Library.Transition
import Mathlib.Data.Finset.Basic
import Mathlib.Logic.Function.Basic

/-!
# The precompiler

`Precompiler` as a transition system. Its producer and its workers take turns, a critical section is
one step, and the wait set of the condition variable is explicit. The producer enqueues any number
of jobs and then calls `finish`. A call of `enqueue` and its job are named by the number of the
call.
-/

namespace DeepJit.Precompiler

inductive WorkerPc where
  | ready
  | asleep
  | running (job : Nat)
  /-- After the job, before `++num_completed`. -/
  | counting
  | exited
deriving DecidableEq, Repr

inductive ProducerPc (ε : Type) where
  | idle
  /-- In `enqueue`, after the insertion of the key. -/
  | inserted
  /-- In `enqueue`, before `notify_one`. -/
  | queued
  /-- In `finish`, before `notify_all`. -/
  | stopping
  /-- Before the join of a worker. -/
  | joining (worker : Nat)
  /-- Before `result.get()` of a result. -/
  | getting (index : Nat)
  | ended (result : Except ε Unit)

structure State (κ ε : Type) where
  submitted : Finset κ := ∅
  results : List Nat := []
  jobs : List Nat := []
  stopping : Bool := false
  numCompleted : Nat := 0
  workers : Nat → WorkerPc := fun _ => .ready
  producer : ProducerPc ε := .idle
  /-- The shared states of the futures. -/
  outcomes : Nat → Option (Except ε Unit) := fun _ => none
  /-- The number of the next call of `enqueue`, and the calls that did not throw. -/
  next : Nat := 0
  accepted : List Nat := []
  executions : Nat → Nat := fun _ => 0

/-- Where `enqueue` can throw once the key is inserted: at the construction of the job, and when
`results` or `jobs` grows. -/
inductive Fault where
  | job
  | results
  | jobs

section

variable {κ ε : Type} [DecidableEq κ]

namespace State

def setWorker (s : State κ ε) (w : Nat) (pc : WorkerPc) : State κ ε :=
  { s with workers := Function.update s.workers w pc }

/-- The critical section of `enqueue`. -/
def push (s : State κ ε) : State κ ε :=
  { s with
    results := s.results ++ [s.next]
    jobs := s.jobs ++ [s.next]
    producer := .queued
    next := s.next + 1
    accepted := s.accepted ++ [s.next] }

/-- The handlers of `enqueue`. -/
def rollBack (s : State κ ε) (key : κ) : Fault → State κ ε
  | .job | .results => { s with submitted := s.submitted.erase key }
  | .jobs => { s with results := (s.results ++ [s.next]).dropLast, submitted := s.submitted.erase key }

/-- A worker takes the first job and runs it outside the lock. -/
def take (s : State κ ε) (w c : Nat) (rest : List Nat) : State κ ε :=
  { s.setWorker w (.running c) with
    jobs := rest
    executions := Function.update s.executions c (s.executions c + 1) }

def notifyAll (s : State κ ε) : State κ ε :=
  { s with workers := fun w => if s.workers w = .asleep then .ready else s.workers w }

end State

/-- `cv.notify_one()` wakes one worker of the wait set, if there is any. -/
inductive NotifyOne (s : State κ ε) : State κ ε → Prop where
  | none (hworkers : ∀ w, s.workers w ≠ .asleep) : NotifyOne s s
  | worker {w : Nat} (hworker : s.workers w = .asleep) : NotifyOne s (s.setWorker w .ready)

inductive Action where
  | producer
  | worker (w : Nat)

/-- One step of the producer or of a worker. Call `c` of `enqueue` has the key `key c`, and its job
ends with one of the results `tasks c`. -/
inductive Step (numWorkers : Nat) (key : Nat → κ) (tasks : Nat → Except ε Unit → Prop) :
    State κ ε → Action → State κ ε → Prop where
  | insert {s : State κ ε} (hpc : s.producer = .idle) (hkey : key s.next ∉ s.submitted) :
      Step numWorkers key tasks s .producer
        { s with submitted := insert (key s.next) s.submitted, producer := .inserted }
  | present {s : State κ ε} (hpc : s.producer = .idle) (hkey : key s.next ∈ s.submitted) :
      Step numWorkers key tasks s .producer { s with next := s.next + 1, accepted := s.accepted ++ [s.next] }
  | insertFails {s : State κ ε} (hpc : s.producer = .idle) (hkey : key s.next ∉ s.submitted) :
      Step numWorkers key tasks s .producer { s with next := s.next + 1 }
  | push {s : State κ ε} (hpc : s.producer = .inserted) :
      Step numWorkers key tasks s .producer s.push
  | pushFails {s : State κ ε} (fault : Fault) (hpc : s.producer = .inserted) :
      Step numWorkers key tasks s .producer
        { s.rollBack (key s.next) fault with producer := .idle, next := s.next + 1 }
  | notifyOne {s s' : State κ ε} (hpc : s.producer = .queued) (hnotify : NotifyOne s s') :
      Step numWorkers key tasks s .producer { s' with producer := .idle }
  /-- The critical section of `stop_and_join`. -/
  | stop {s : State κ ε} (hpc : s.producer = .idle) :
      Step numWorkers key tasks s .producer { s with stopping := true, producer := .stopping }
  | notifyAll {s : State κ ε} (hpc : s.producer = .stopping) :
      Step numWorkers key tasks s .producer { s.notifyAll with producer := .joining 0 }
  | join {s : State κ ε} {w : Nat} (hpc : s.producer = .joining w) (hw : w < numWorkers)
      (hexited : s.workers w = .exited) :
      Step numWorkers key tasks s .producer { s with producer := .joining (w + 1) }
  | joined {s : State κ ε} (hpc : s.producer = .joining numWorkers) :
      Step numWorkers key tasks s .producer { s with producer := .getting 0 }
  | get {s : State κ ε} {i c : Nat} (hpc : s.producer = .getting i)
      (hresult : s.results[i]? = some c) (houtcome : s.outcomes c = some (.ok ())) :
      Step numWorkers key tasks s .producer { s with producer := .getting (i + 1) }
  | getThrows {s : State κ ε} {i c : Nat} {error : ε} (hpc : s.producer = .getting i)
      (hresult : s.results[i]? = some c) (houtcome : s.outcomes c = some (.error error)) :
      Step numWorkers key tasks s .producer { s with producer := .ended (.error error) }
  | getLast {s : State κ ε} (hpc : s.producer = .getting s.results.length) :
      Step numWorkers key tasks s .producer { s with producer := .ended (.ok ()) }
  | sleep {s : State κ ε} {w : Nat} (hw : w < numWorkers) (hpc : s.workers w = .ready)
      (hjobs : s.jobs = []) (hstopping : s.stopping = false) :
      Step numWorkers key tasks s (.worker w) (s.setWorker w .asleep)
  | wake {s : State κ ε} {w : Nat} (hpc : s.workers w = .asleep) :
      Step numWorkers key tasks s (.worker w) (s.setWorker w .ready)
  | take {s : State κ ε} {w c : Nat} {rest : List Nat} (hw : w < numWorkers)
      (hpc : s.workers w = .ready)
      (hjobs : s.jobs = c :: rest) : Step numWorkers key tasks s (.worker w) (s.take w c rest)
  | exit {s : State κ ε} {w : Nat} (hw : w < numWorkers) (hpc : s.workers w = .ready)
      (hjobs : s.jobs = []) (hstopping : s.stopping = true) :
      Step numWorkers key tasks s (.worker w) (s.setWorker w .exited)
  | complete {s : State κ ε} {w c : Nat} {result : Except ε Unit} (hpc : s.workers w = .running c)
      (hresult : tasks c result) : Step numWorkers key tasks s (.worker w)
        { s.setWorker w .counting with outcomes := Function.update s.outcomes c (some result) }
  | count {s : State κ ε} {w : Nat} (hpc : s.workers w = .counting) :
      Step numWorkers key tasks s (.worker w)
        { s.setWorker w .ready with numCompleted := s.numCompleted + 1 }

/-- The precompiler from the end of its constructor on, which rejects a worker count that is not
positive. -/
def system (numWorkers : Nat) (key : Nat → κ) (tasks : Nat → Except ε Unit → Prop) :
    TransitionSystem (State κ ε) Action where
  init s := 0 < numWorkers ∧ s = {}
  step := Step numWorkers key tasks

end

end DeepJit.Precompiler
