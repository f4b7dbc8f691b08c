import DeepJit.Runtime.PrecompilerSafety
import Mathlib.Algebra.BigOperators.Group.Finset.Basic

/-!
# The counts of the precompiler

The containers of the precompiler and its counter belong to different threads, and stay in step all
the same. So the progress line never shows a wrapped number, and a call of `enqueue` that throws
leaves no trace.
-/

namespace DeepJit.Precompiler

section

variable {κ ε : Type} [DecidableEq κ] {numWorkers : Nat} {key : Nat → κ}
  {tasks : Nat → Except ε Unit → Prop} {s s' : State κ ε} {c w : Nat}

/-! ### Running jobs -/

/-- How many jobs a worker has taken and not yet counted. -/
def WorkerPc.taken : WorkerPc → Nat
  | .running _ | .counting => 1
  | .ready | .asleep | .exited => 0

@[simp] theorem WorkerPc.taken_ready : WorkerPc.ready.taken = 0 := rfl
@[simp] theorem WorkerPc.taken_asleep : WorkerPc.asleep.taken = 0 := rfl
@[simp] theorem WorkerPc.taken_exited : WorkerPc.exited.taken = 0 := rfl
@[simp] theorem WorkerPc.taken_counting : WorkerPc.counting.taken = 1 := rfl
@[simp] theorem WorkerPc.taken_running : (WorkerPc.running c).taken = 1 := rfl

def runningJobs (workers : Nat → WorkerPc) (numWorkers : Nat) : Nat :=
  ∑ w ∈ Finset.range numWorkers, (workers w).taken

theorem runningJobs_congr {workers workers' : Nat → WorkerPc}
    (h : ∀ w, (workers' w).taken = (workers w).taken) :
    runningJobs workers' numWorkers = runningJobs workers numWorkers :=
  Finset.sum_congr rfl fun w _ => h w

theorem runningJobs_update (workers : Nat → WorkerPc) (hw : w < numWorkers) (pc : WorkerPc) :
    runningJobs (Function.update workers w pc) numWorkers + (workers w).taken =
      runningJobs workers numWorkers + pc.taken := by
  have hmem : w ∈ Finset.range numWorkers := Finset.mem_range.mpr hw
  have hothers : ∑ v ∈ (Finset.range numWorkers).erase w, (Function.update workers w pc v).taken =
      ∑ v ∈ (Finset.range numWorkers).erase w, (workers v).taken := by
    apply Finset.sum_congr rfl
    intro v hv
    rw [Function.update_of_ne (Finset.ne_of_mem_erase hv)]
  unfold runningJobs
  rw [← Finset.sum_erase_add _ _ hmem, hothers, Function.update_self,
    ← Finset.sum_erase_add _ (fun v => (workers v).taken) hmem]
  omega

/-! ### The counts -/

/-- Every result is one of a job in the queue, of a job with a worker, or of one that was counted. -/
def Balanced (numWorkers : Nat) (s : State κ ε) : Prop :=
  s.results.length = s.jobs.length + runningJobs s.workers numWorkers + s.numCompleted

omit [DecidableEq κ] in
theorem balanced_init : Balanced numWorkers ({} : State κ ε) := by
  simp [Balanced, runningJobs]

omit [DecidableEq κ] in
theorem Balanced.congr (h : Balanced numWorkers s) (hresults : s'.results = s.results)
    (hjobs : s'.jobs = s.jobs) (hworkers : ∀ v, (s'.workers v).taken = (s.workers v).taken)
    (hcompleted : s'.numCompleted = s.numCompleted) : Balanced numWorkers s' := by
  unfold Balanced
  rw [hresults, hjobs, runningJobs_congr hworkers, hcompleted]
  exact h

omit [DecidableEq κ] in
theorem taken_setWorker {pc : WorkerPc} (hpc : pc.taken = (s.workers w).taken) (v : Nat) :
    ((s.setWorker w pc).workers v).taken = (s.workers v).taken := by
  by_cases hv : v = w
  · subst hv
    simp [State.setWorker, hpc]
  · simp [State.setWorker, hv]

omit [DecidableEq κ] in
theorem NotifyOne.taken_eq (hnotify : NotifyOne s s') (v : Nat) :
    (s'.workers v).taken = (s.workers v).taken := by
  cases hnotify with
  | none => rfl
  | worker hworker => exact taken_setWorker (by simp [hworker]) v

omit [DecidableEq κ] in
theorem NotifyOne.same (hnotify : NotifyOne s s') : s'.results = s.results ∧ s'.jobs = s.jobs ∧
    s'.numCompleted = s.numCompleted := by
  cases hnotify <;> exact ⟨rfl, rfl, rfl⟩

theorem Balanced.step (h : Balanced numWorkers s) (hinv : Inv numWorkers key tasks s) {a : Action}
    (hstep : Step numWorkers key tasks s a s') : Balanced numWorkers s' := by
  cases hstep with
  | insert | present | insertFails | stop | join | joined | get | getThrows | getLast =>
      exact h.congr rfl rfl (fun _ => rfl) rfl
  | push hpc =>
      unfold Balanced at h ⊢
      simp only [State.push, List.length_append, List.length_singleton]
      omega
  | pushFails fault hpc =>
      rw [rollBack_eq]
      exact h.congr rfl rfl (fun _ => rfl) rfl
  | notifyOne hpc hnotify =>
      obtain ⟨hresults, hjobs, hcompleted⟩ := hnotify.same
      exact h.congr hresults hjobs hnotify.taken_eq hcompleted
  | notifyAll hpc =>
      refine h.congr rfl rfl ?_ rfl
      intro v
      by_cases hv : s.workers v = .asleep <;> simp [State.notifyAll, hv]
  | sleep hw hpc hjobs hstopping => exact h.congr rfl rfl (taken_setWorker (by simp [hpc])) rfl
  | wake hpc => exact h.congr rfl rfl (taken_setWorker (by simp [hpc])) rfl
  | exit hw hpc hjobs hstopping => exact h.congr rfl rfl (taken_setWorker (by simp [hpc])) rfl
  | complete hpc hresult => exact h.congr rfl rfl (taken_setWorker (by simp [hpc])) rfl
  | @take w c rest hw hpc hjobs =>
      have hupdate := runningJobs_update s.workers hw (.running c)
      unfold Balanced at h ⊢
      simp only [hpc, WorkerPc.taken_ready, WorkerPc.taken_running] at hupdate
      simp only [hjobs, List.length_cons] at h
      simp only [State.take, State.setWorker]
      omega
  | @count w hpc =>
      have hw : w < numWorkers := hinv.lt_of_not_ready (by simp [hpc])
      have hupdate := runningJobs_update s.workers hw .ready
      unfold Balanced at h ⊢
      simp only [hpc, WorkerPc.taken_ready, WorkerPc.taken_counting] at hupdate
      simp only [State.setWorker]
      omega

theorem balanced_of_reachable (hs : (system numWorkers key tasks).Reachable s) :
    Balanced numWorkers s := by
  have hboth : Inv numWorkers key tasks s ∧ Balanced numWorkers s := by
    apply hs.invariant (I := fun s => Inv numWorkers key tasks s ∧ Balanced numWorkers s)
    · rintro _ ⟨-, rfl⟩
      exact ⟨inv_init, balanced_init⟩
    · intro s a s' hs hstep
      exact ⟨hs.1.step hstep, hs.2.step hs.1 hstep⟩
  exact hboth.2

/-- Apart from the call that has inserted its key and nothing else yet, there is one key for each
result. -/
theorem SubmissionInv.card_submitted (h : SubmissionInv key s) (hpc : s.producer ≠ .inserted) :
    s.submitted.card = s.results.length := by
  have hkeys : s.submitted = (s.results.map key).toFinset := by
    ext k
    simpa [hpc] using h.submitted k
  have hnodup : (s.results.map key).Nodup := by
    rw [h.results]
    exact nodup_map_firstsBy s.accepted
  rw [hkeys, List.toFinset_card_of_nodup hnodup, List.length_map]

/-! ### The progress line -/

/-- The numbers that `print_progress` writes, each a `size_t`. -/
structure Progress where
  spinner : Char
  completed : BitVec 64
  total : BitVec 64
  running : BitVec 64
  queued : BitVec 64

def State.printProgress (s : State κ ε) : Progress :=
  let completed := BitVec.ofNat 64 s.numCompleted
  let total := BitVec.ofNat 64 s.results.length
  let queued := BitVec.ofNat 64 s.jobs.length
  { spinner := "|/-\\".toList.getD (s.numCompleted % 4) ' '
    completed, total, queued
    running := total - completed - queued }

/-- The calls of `print_progress`, each with the state it is made in: after a submission, after a job
was taken, after one was counted, and at the end of `finish`. -/
inductive Prints (numWorkers : Nat) (s : State κ ε) : State κ ε → Prop where
  | enqueue (hpc : s.producer = .inserted) : Prints numWorkers s s.push
  | take {w c : Nat} {rest : List Nat} (hw : w < numWorkers) (hpc : s.workers w = .ready)
      (hjobs : s.jobs = c :: rest) : Prints numWorkers s (s.take w c rest)
  | count {w : Nat} (hpc : s.workers w = .counting) :
      Prints numWorkers s { s.setWorker w .ready with numCompleted := s.numCompleted + 1 }
  | finish (hpc : s.producer = .getting s.results.length) (hresults : s.results ≠ []) :
      Prints numWorkers s s

/-- What is printed is printed in a state that the system reaches. -/
theorem Prints.reachable (hs : (system numWorkers key tasks).Reachable s)
    (hprints : Prints numWorkers s s') : (system numWorkers key tasks).Reachable s' := by
  cases hprints with
  | enqueue hpc => exact hs.tail (a := .producer) (.push hpc)
  | take hw hpc hjobs => exact hs.tail (a := .worker _) (.take hw hpc hjobs)
  | count hpc => exact hs.tail (a := .worker _) (.count hpc)
  | finish => exact hs

/-- Neither subtraction of `print_progress` wraps, and the difference is the number of jobs that
workers hold. -/
structure Exact (numWorkers : Nat) (s : State κ ε) : Prop where
  completed_le : s.numCompleted ≤ s.results.length
  queued_le : s.jobs.length ≤ s.results.length - s.numCompleted
  running : s.printProgress.running = BitVec.ofNat 64 (runningJobs s.workers numWorkers)

omit [DecidableEq κ] in
theorem Balanced.exact (h : Balanced numWorkers s) : Exact numWorkers s := by
  unfold Balanced at h
  constructor
  · omega
  · omega
  · simp only [State.printProgress]
    rw [h]
    apply BitVec.eq_of_toNat_eq
    simp only [BitVec.toNat_sub, BitVec.toNat_ofNat]
    omega

/-! ### Calls that throw -/

variable (numWorkers key tasks) in
/-- Steps of the workers, while the producer is inside one call. -/
def WorkerRun : State κ ε → State κ ε → Prop :=
  Relation.ReflTransGen fun s s' => ∃ w, Step numWorkers key tasks s (.worker w) s'

variable (numWorkers key tasks) in
/-- A call of `enqueue` that throws: when it inserts the key, or at one of the later faults, before
which the workers take any number of steps. -/
inductive Throws (s : State κ ε) : State κ ε → Prop where
  | insertion (hpc : s.producer = .idle) (hkey : key s.next ∉ s.submitted) :
      Throws s { s with next := s.next + 1 }
  | rolledBack {s' : State κ ε} (fault : Fault) (hpc : s.producer = .idle)
      (hkey : key s.next ∉ s.submitted)
      (hrun : WorkerRun numWorkers key tasks
        { s with submitted := insert (key s.next) s.submitted, producer := .inserted } s') :
      Throws s { s'.rollBack (key s'.next) fault with producer := .idle, next := s'.next + 1 }

/-- The workers neither look at the submitted keys nor at where the producer is. -/
theorem step_worker_comm {submitted : Finset κ} {pc : ProducerPc ε}
    (hstep : Step numWorkers key tasks { s with submitted := submitted, producer := pc } (.worker w) s') :
    ∃ t, Step numWorkers key tasks s (.worker w) t ∧
      s' = { t with submitted := submitted, producer := pc } := by
  cases hstep with
  | sleep hw hpc hjobs hstopping => exact ⟨_, .sleep hw hpc hjobs hstopping, rfl⟩
  | wake hpc => exact ⟨_, .wake hpc, rfl⟩
  | take hw hpc hjobs => exact ⟨_, .take hw hpc hjobs, rfl⟩
  | exit hw hpc hjobs hstopping => exact ⟨_, .exit hw hpc hjobs hstopping, rfl⟩
  | complete hpc hresult => exact ⟨_, .complete hpc hresult, rfl⟩
  | count hpc => exact ⟨_, .count hpc, rfl⟩

theorem workerRun_comm {submitted : Finset κ} {pc : ProducerPc ε}
    (hrun : WorkerRun numWorkers key tasks { s with submitted := submitted, producer := pc } s') :
    ∃ t, WorkerRun numWorkers key tasks s t ∧
      s' = { t with submitted := submitted, producer := pc } := by
  induction hrun with
  | refl => exact ⟨s, .refl, rfl⟩
  | tail _ hlast ih =>
      obtain ⟨t, hrun, rfl⟩ := ih
      obtain ⟨w, hstep⟩ := hlast
      obtain ⟨u, hstep', rfl⟩ := step_worker_comm hstep
      exact ⟨u, hrun.tail ⟨w, hstep'⟩, rfl⟩

theorem step_worker_same (hstep : Step numWorkers key tasks s (.worker w) s') :
    s'.submitted = s.submitted ∧ s'.producer = s.producer ∧ s'.next = s.next := by
  cases hstep <;> exact ⟨rfl, rfl, rfl⟩

theorem workerRun_same (hrun : WorkerRun numWorkers key tasks s s') :
    s'.submitted = s.submitted ∧ s'.producer = s.producer ∧ s'.next = s.next := by
  induction hrun with
  | refl => exact ⟨rfl, rfl, rfl⟩
  | tail _ hlast ih =>
      obtain ⟨w, hstep⟩ := hlast
      obtain ⟨hsubmitted, hproducer, hnext⟩ := step_worker_same hstep
      obtain ⟨hsubmitted', hproducer', hnext'⟩ := ih
      exact ⟨hsubmitted.trans hsubmitted', hproducer.trans hproducer', hnext.trans hnext'⟩

/-- Without the call, the same steps of the workers lead to the same state, up to the number of the
next call. -/
theorem Throws.undone (hthrows : Throws numWorkers key tasks s s') :
    ∃ t, WorkerRun numWorkers key tasks s t ∧ s' = { t with next := t.next + 1 } := by
  cases hthrows with
  | insertion hpc hkey => exact ⟨s, .refl, rfl⟩
  | rolledBack fault hpc hkey hrun =>
      obtain ⟨t, hrun', rfl⟩ := workerRun_comm hrun
      obtain ⟨hsubmitted, hproducer, hnext⟩ := workerRun_same hrun'
      refine ⟨t, hrun', ?_⟩
      rw [rollBack_eq]
      have herase : (insert (key s.next) s.submitted).erase (key t.next) = t.submitted := by
        rw [hnext, Finset.erase_insert hkey, hsubmitted]
      simp only [herase, ← hpc, ← hproducer]

/-- The key of a call that threw is free again. -/
theorem Throws.key_notMem (hthrows : Throws numWorkers key tasks s s') :
    s'.producer = .idle ∧ key s.next ∉ s'.submitted := by
  have hbefore : s.producer = .idle ∧ key s.next ∉ s.submitted := by
    cases hthrows with
    | insertion hpc hkey => exact ⟨hpc, hkey⟩
    | rolledBack fault hpc hkey hrun => exact ⟨hpc, hkey⟩
  obtain ⟨t, hrun, rfl⟩ := hthrows.undone
  obtain ⟨hsubmitted, hproducer, -⟩ := workerRun_same hrun
  exact ⟨hproducer.trans hbefore.1, fun hmem => hbefore.2 (hsubmitted ▸ hmem)⟩

/-- A state inside a call, after the insertion of the key. -/
def CallBegan (numWorkers : Nat) (key : Nat → κ) (tasks : Nat → Except ε Unit → Prop)
    (s : State κ ε) : Prop :=
  ∃ s₀, (system numWorkers key tasks).Reachable s₀ ∧ s₀.producer = .idle ∧
    key s₀.next ∉ s₀.submitted ∧ WorkerRun numWorkers key tasks
      { s₀ with submitted := insert (key s₀.next) s₀.submitted, producer := .inserted } s

/-- Between the insertion of a key and what follows it in the call, only the workers step. -/
theorem callBegan_of_reachable (hs : (system numWorkers key tasks).Reachable s)
    (hpc : s.producer = .inserted) : CallBegan numWorkers key tasks s := by
  have hboth : (system numWorkers key tasks).Reachable s ∧
      (s.producer = .inserted → CallBegan numWorkers key tasks s) := by
    apply hs.invariant (I := fun s => (system numWorkers key tasks).Reachable s ∧
      (s.producer = .inserted → CallBegan numWorkers key tasks s))
    · intro s hinit
      refine ⟨⟨s, hinit, .refl s⟩, ?_⟩
      obtain ⟨-, rfl⟩ := hinit
      simp
    · intro s a s' hs hstep
      refine ⟨hs.1.tail hstep, ?_⟩
      intro hpc'
      cases a with
      | worker w =>
          have hpc : s.producer = .inserted := (step_worker_same hstep).2.1.symm.trans hpc'
          obtain ⟨s₀, hs₀, hidle, hkey, hrun⟩ := hs.2 hpc
          exact ⟨s₀, hs₀, hidle, hkey, hrun.tail ⟨w, hstep⟩⟩
      | producer =>
          cases hstep with
          | insert hpc hkey => exact ⟨s, hs.1, hpc, hkey, .refl⟩
          | present hpc hkey | insertFails hpc hkey => simp [hpc] at hpc'
          | push | pushFails | notifyOne | stop | notifyAll | join | joined | get | getThrows
          | getLast => simp [State.push] at hpc'
  exact hboth.2 hpc

theorem exists_throws (hs : (system numWorkers key tasks).Reachable s) (hpc : s.producer = .inserted)
    (fault : Fault) : ∃ s₀, (system numWorkers key tasks).Reachable s₀ ∧
      Throws numWorkers key tasks s₀
        { s.rollBack (key s.next) fault with producer := .idle, next := s.next + 1 } := by
  obtain ⟨s₀, hs₀, hidle, hkey, hrun⟩ := callBegan_of_reachable hs hpc
  exact ⟨s₀, hs₀, .rolledBack fault hidle hkey hrun⟩

/-- In every reachable state: the results are those of the queued jobs, the jobs with a worker and
the counted ones; no call being under way, there is a submitted key for each; the progress line is
exact; a call that throws leaves the state to which the workers alone would have come, in which its
key can be inserted by a later call; and a call that has inserted its key throws from there only in
such a way. -/
theorem counts_exact (hs : (system numWorkers key tasks).Reachable s) :
    s.results.length = s.jobs.length + runningJobs s.workers numWorkers + s.numCompleted ∧
    (s.producer ≠ .inserted → s.submitted.card = s.results.length) ∧
    (∀ s', Prints numWorkers s s' → Exact numWorkers s') ∧
    (∀ s', Throws numWorkers key tasks s s' →
      (∃ t, WorkerRun numWorkers key tasks s t ∧ s' = { t with next := t.next + 1 }) ∧
      (key s'.next = key s.next → Step numWorkers key tasks s' .producer
        { s' with submitted := insert (key s.next) s'.submitted, producer := .inserted })) ∧
    ∀ fault, s.producer = .inserted → ∃ s₀, (system numWorkers key tasks).Reachable s₀ ∧
      Throws numWorkers key tasks s₀
        { s.rollBack (key s.next) fault with producer := .idle, next := s.next + 1 } := by
  refine ⟨balanced_of_reachable hs, (inv_of_reachable hs).submission.card_submitted, ?_, ?_,
    fun fault hpc => exists_throws hs hpc fault⟩
  · intro s' hprints
    exact (balanced_of_reachable (hprints.reachable hs)).exact
  · intro s' hthrows
    refine ⟨hthrows.undone, ?_⟩
    intro hkey
    obtain ⟨hidle, hfree⟩ := hthrows.key_notMem
    rw [← hkey] at hfree ⊢
    exact .insert hidle hfree

end

/-- One worker holds the first of two jobs when the third call fails to grow the queue. -/
theorem exists_reachable_fault :
    ∃ s, (system (ε := String) 1 (fun c => c) fun _ _ => True).Reachable s ∧
      s.results = [0, 1] ∧ s.jobs = [1] ∧ s.numCompleted = 0 ∧ s.producer = .idle := by
  have hinit : (system (ε := String) 1 (fun c => c) fun _ _ => True).Reachable {} :=
    ⟨_, ⟨Nat.one_pos, rfl⟩, .refl _⟩
  have hinserted := hinit.tail (a := .producer) (.insert rfl (Finset.notMem_empty _))
  have hpushed := hinserted.tail (a := .producer) (.push rfl)
  have hnotified := hpushed.tail (a := .producer) (.notifyOne rfl (.none fun _ => WorkerPc.noConfusion))
  have hinserted' := hnotified.tail (a := .producer) (.insert rfl (by decide))
  have htaken := hinserted'.tail (a := .worker 0) (.take Nat.one_pos rfl rfl)
  have hpushed' := htaken.tail (a := .producer) (.push rfl)
  have hnotified' := hpushed'.tail (a := .producer) (.notifyOne rfl (.none fun w => by
    by_cases hw : w = 0 <;> simp [State.push, State.take, State.setWorker, hw]))
  have hinserted'' := hnotified'.tail (a := .producer) (.insert rfl (by decide))
  have hfailed := hinserted''.tail (a := .producer) (.pushFails .jobs rfl)
  exact ⟨_, hfailed, rfl, rfl, rfl, rfl⟩

theorem counts_exact_fault :
    ∃ s, (system (ε := String) 1 (fun c => c) fun _ _ => True).Reachable s ∧
      s.results = [0, 1] ∧ s.jobs = [1] ∧ s.submitted.card = 2 ∧ runningJobs s.workers 1 = 1 := by
  obtain ⟨s, hs, hresults, hjobs, hcompleted, hpc⟩ := exists_reachable_fault
  obtain ⟨hbalanced, hkeys, -⟩ := counts_exact hs
  have hcard := hkeys (by simp [hpc])
  simp only [hresults, hjobs, hcompleted, List.length_cons, List.length_nil] at hbalanced hcard
  exact ⟨s, hs, hresults, hjobs, hcard, by omega⟩

end DeepJit.Precompiler
