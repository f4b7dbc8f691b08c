import DeepJit.Library.FirstsBy
import DeepJit.Runtime.Precompiler

/-!
# Precompilation is exact

Every accepted job is in the queue, with a worker, or done, and the jobs are those of the first
calls with their keys. Since the workers leave only when the queue is empty and nothing more comes,
all of the jobs are done when `finish` reads the results in the order of their submission.
-/

namespace DeepJit.Precompiler

section

variable {κ ε : Type} [DecidableEq κ] {numWorkers : Nat} {key : Nat → κ}
  {tasks : Nat → Except ε Unit → Prop}
  {s s' : State κ ε} {c w : Nat}

/-- The calls of the producer and the submissions they made. -/
structure SubmissionInv (key : Nat → κ) (s : State κ ε) : Prop where
  accepted_lt : ∀ c ∈ s.accepted, c < s.next
  sorted : s.accepted.Pairwise (· < ·)
  results : s.results = firstsBy key s.accepted
  fresh : s.producer = .inserted → key s.next ∉ s.results.map key
  submitted : ∀ k, k ∈ s.submitted ↔
    k ∈ s.results.map key ∨ (s.producer = .inserted ∧ k = key s.next)

/-- Where a job is, and how often it was run. -/
structure JobInv (numWorkers : Nat) (tasks : Nat → Except ε Unit → Prop) (s : State κ ε) (c : Nat) :
    Prop where
  queued : c ∈ s.jobs → c ∈ s.results ∧ s.executions c = 0 ∧ s.outcomes c = none
  running : ∀ w, s.workers w = .running c →
    c ∈ s.results ∧ c ∉ s.jobs ∧ s.executions c = 1 ∧ s.outcomes c = none ∧
    ∀ v, s.workers v = .running c → v = w
  done : ∀ result, s.outcomes c = some result → tasks c result ∧ s.executions c = 1
  covered : c ∈ s.results → c ∈ s.jobs ∨ (∃ w, w < numWorkers ∧ s.workers w = .running c) ∨
    s.outcomes c ≠ none
  absent : c ∉ s.results → s.executions c = 0

/-- Every result in front of the given position is one of a job that succeeded. -/
def SucceededBelow (s : State κ ε) (i : Nat) : Prop :=
  ∀ j, j < i → ∀ c, s.results[j]? = some c → s.outcomes c = some (.ok ())

def ProducerInv (numWorkers : Nat) (s : State κ ε) : ProducerPc ε → Prop
  | .idle | .inserted | .queued => s.stopping = false
  | .stopping => s.stopping = true
  | .joining w => s.stopping = true ∧ w ≤ numWorkers ∧ ∀ v, v < w → s.workers v = .exited
  | .getting i => s.stopping = true ∧ (∀ v, v < numWorkers → s.workers v = .exited) ∧
      SucceededBelow s i
  | .ended result => s.stopping = true ∧ (∀ v, v < numWorkers → s.workers v = .exited) ∧
      match result with
      | .ok _ => ∀ c ∈ s.results, s.outcomes c = some (.ok ())
      | .error error => ∃ i c, s.results[i]? = some c ∧ s.outcomes c = some (.error error) ∧
          SucceededBelow s i

structure Inv (numWorkers : Nat) (key : Nat → κ) (tasks : Nat → Except ε Unit → Prop)
    (s : State κ ε) : Prop where
  submission : SubmissionInv key s
  distinct : s.jobs.Nodup
  job : ∀ c, JobInv numWorkers tasks s c
  unused : ∀ w, numWorkers ≤ w → s.workers w = .ready
  exited : ∀ w, s.workers w = .exited → s.stopping = true ∧ s.jobs = []
  producer : ProducerInv numWorkers s s.producer

theorem inv_init : Inv numWorkers key tasks ({} : State κ ε) := by
  refine ⟨⟨?_, ?_, ?_, ?_, ?_⟩, ?_, ?_, ?_, ?_, ?_⟩
  all_goals first
    | exact fun c => ⟨by simp, by simp, by simp, by simp, by simp⟩
    | simp [ProducerInv]

/-! ### Steps of a worker -/

/-- What the steps of a worker leave alone or only extend, for the calls and for `finish`. -/
structure WorkerFrame (s s' : State κ ε) : Prop where
  submitted : s'.submitted = s.submitted
  results : s'.results = s.results
  stopping : s'.stopping = s.stopping
  producer : s'.producer = s.producer
  next : s'.next = s.next
  accepted : s'.accepted = s.accepted
  exited : ∀ v, s.workers v = .exited → s'.workers v = .exited
  outcomes : ∀ c result, s.outcomes c = some result → s'.outcomes c = some result

theorem WorkerFrame.submission (h : WorkerFrame s s') (hinv : SubmissionInv key s) :
    SubmissionInv key s' := by
  obtain ⟨haccepted, hsorted, hresults, hfresh, hsubmitted⟩ := hinv
  constructor
  · rw [h.accepted, h.next]
    exact haccepted
  · rw [h.accepted]
    exact hsorted
  · rw [h.results, h.accepted]
    exact hresults
  · rw [h.producer, h.next, h.results]
    exact hfresh
  · rw [h.submitted, h.results, h.producer, h.next]
    exact hsubmitted

omit [DecidableEq κ] in
theorem WorkerFrame.succeededBelow (h : WorkerFrame s s') {i : Nat} (hinv : SucceededBelow s i) :
    SucceededBelow s' i := by
  intro j hj c hc
  rw [h.results] at hc
  exact h.outcomes c _ (hinv j hj c hc)

omit [DecidableEq κ] in
theorem WorkerFrame.producerInv (h : WorkerFrame s s') {pc : ProducerPc ε}
    (hinv : ProducerInv numWorkers s pc) :
    ProducerInv numWorkers s' pc := by
  cases pc with
  | idle | inserted | queued | stopping => exact h.stopping.trans hinv
  | joining w =>
      obtain ⟨hstopping, hw, hexited⟩ := hinv
      exact ⟨h.stopping.trans hstopping, hw, fun v hv => h.exited v (hexited v hv)⟩
  | getting i =>
      obtain ⟨hstopping, hexited, hbelow⟩ := hinv
      exact ⟨h.stopping.trans hstopping, fun v hv => h.exited v (hexited v hv),
        h.succeededBelow hbelow⟩
  | ended result =>
      obtain ⟨hstopping, hexited, hresult⟩ := hinv
      refine ⟨h.stopping.trans hstopping, fun v hv => h.exited v (hexited v hv), ?_⟩
      cases result with
      | ok _ =>
          intro c hc
          rw [h.results] at hc
          exact h.outcomes c _ (hresult c hc)
      | error error =>
          obtain ⟨i, c, hc, houtcome, hbelow⟩ := hresult
          exact ⟨i, c, by rw [h.results, hc], h.outcomes c _ houtcome, h.succeededBelow hbelow⟩

theorem WorkerFrame.inv (h : WorkerFrame s s') (hinv : Inv numWorkers key tasks s)
    (hdistinct : s'.jobs.Nodup) (hjob : ∀ c, JobInv numWorkers tasks s' c)
    (hunused : ∀ v, numWorkers ≤ v → s'.workers v = s.workers v)
    (hexited : ∀ v, s'.workers v = .exited → s'.stopping = true ∧ s'.jobs = []) :
    Inv numWorkers key tasks s' := by
  refine ⟨h.submission hinv.submission, hdistinct, hjob, ?_, hexited, ?_⟩
  · intro v hv
    rw [hunused v hv, hinv.unused v hv]
  · rw [h.producer]
    exact h.producerInv hinv.producer

theorem Inv.lt_of_not_ready (h : Inv numWorkers key tasks s) (hpc : s.workers w ≠ .ready) :
    w < numWorkers := by
  by_contra hw
  exact hpc (h.unused w (Nat.not_lt.mp hw))

/-- Workers without a job move on. -/
theorem Inv.moveWorkers (h : Inv numWorkers key tasks s) {workers : Nat → WorkerPc}
    (hrunning : ∀ v c, workers v = .running c ↔ s.workers v = .running c)
    (hexited : ∀ v, s.workers v = .exited → workers v = .exited)
    (hexits : ∀ v, workers v = .exited → s.workers v = .exited ∨ (s.stopping = true ∧ s.jobs = []))
    (hunused : ∀ v, numWorkers ≤ v → workers v = s.workers v) :
    Inv numWorkers key tasks { s with workers := workers } := by
  have hframe : WorkerFrame s { s with workers := workers } :=
    ⟨rfl, rfl, rfl, rfl, rfl, rfl, hexited, fun _ _ => id⟩
  apply hframe.inv h h.distinct
  · intro c
    obtain ⟨hqueued, hrun, hdone, hcovered, habsent⟩ := h.job c
    refine ⟨hqueued, ?_, hdone, ?_, habsent⟩
    · intro v hv
      obtain ⟨hresults, hjobs, honce, hnone, hunique⟩ := hrun v ((hrunning v c).mp hv)
      exact ⟨hresults, hjobs, honce, hnone, fun u hu => hunique u ((hrunning u c).mp hu)⟩
    · intro hc
      rcases hcovered hc with hjobs | ⟨v, hv, hpc⟩ | hsome
      · exact .inl hjobs
      · exact .inr (.inl ⟨v, hv, (hrunning v c).mpr hpc⟩)
      · exact .inr (.inr hsome)
  · exact hunused
  · intro v hv
    rcases hexits v hv with hold | hnew
    · exact h.exited v hold
    · exact hnew

theorem Inv.setWorker (h : Inv numWorkers key tasks s) (hw : w < numWorkers) {pc : WorkerPc}
    (hbefore : ∀ c, s.workers w ≠ .running c) (halive : s.workers w ≠ .exited)
    (hafter : ∀ c, pc ≠ .running c) (hexited : pc = .exited → s.stopping = true ∧ s.jobs = []) :
    Inv numWorkers key tasks (s.setWorker w pc) := by
  apply h.moveWorkers
  · intro v c
    by_cases hv : v = w
    · subst hv
      simp [hbefore, hafter]
    · simp [hv]
  · intro v hv
    have hne : v ≠ w := by
      intro heq
      exact halive (heq ▸ hv)
    simpa [hne] using hv
  · intro v hv
    by_cases hvw : v = w
    · subst hvw
      exact .inr (hexited (by simpa using hv))
    · exact .inl (by simpa [hvw] using hv)
  · intro v hv
    have hne : v ≠ w := by omega
    simp [hne]

theorem Inv.take (h : Inv numWorkers key tasks s) (hw : w < numWorkers) (hpc : s.workers w = .ready)
    {rest : List Nat}
    (hjobs : s.jobs = c :: rest) : Inv numWorkers key tasks (s.take w c rest) := by
  have hdistinct := h.distinct
  rw [hjobs, List.nodup_cons] at hdistinct
  obtain ⟨hnotin, hrest⟩ := hdistinct
  obtain ⟨hresult, hnever, hnone⟩ := (h.job c).queued (by simp [hjobs])
  have hidle (v : Nat) : s.workers v ≠ .running c := by
    intro hv
    exact ((h.job c).running v hv).2.1 (by simp [hjobs])
  have hframe : WorkerFrame s (s.take w c rest) := by
    refine ⟨rfl, rfl, rfl, rfl, rfl, rfl, ?_, fun _ _ => id⟩
    intro v hv
    have hne : v ≠ w := by
      intro heq
      simp [heq ▸ hv] at hpc
    simpa [State.take, State.setWorker, hne] using hv
  apply hframe.inv h hrest
  · intro d
    by_cases hd : d = c
    · subst hd
      constructor
      · intro hmem
        exact absurd hmem hnotin
      · intro v hv
        have hvw : v = w := by
          by_contra hne
          exact hidle v (by simpa [State.take, State.setWorker, hne] using hv)
        refine ⟨hresult, hnotin, by simp [State.take, hnever], hnone, ?_⟩
        intro u hu
        by_contra hne
        rw [hvw] at hne
        exact hidle u (by simpa [State.take, State.setWorker, hne] using hu)
      · intro result hsome
        have hsome' : s.outcomes d = some result := hsome
        simp [hnone] at hsome'
      · exact fun _ => .inr (.inl ⟨w, hw, by simp [State.take, State.setWorker]⟩)
      · intro habsent
        exact absurd hresult habsent
    · obtain ⟨hqueued, hrun, hdone, hcovered, habsent⟩ := h.job d
      have hrunning (v : Nat) : (s.take w c rest).workers v = .running d ↔
          s.workers v = .running d := by
        by_cases hv : v = w
        · subst hv
          simp [State.take, State.setWorker, hpc, Ne.symm hd]
        · simp [State.take, State.setWorker, hv]
      have hmem : d ∈ rest ↔ d ∈ s.jobs := by simp [hjobs, hd]
      have hexecutions : (s.take w c rest).executions d = s.executions d := by simp [State.take, hd]
      constructor
      · rw [hexecutions]
        exact fun hd' => hqueued (hmem.mp hd')
      · intro v hv
        obtain ⟨hres, hnotjob, honce, hnone', hunique⟩ := hrun v ((hrunning v).mp hv)
        exact ⟨hres, fun hd' => hnotjob (hmem.mp hd'), hexecutions.trans honce, hnone',
          fun u hu => hunique u ((hrunning u).mp hu)⟩
      · rw [hexecutions]
        exact hdone
      · intro hd'
        rcases hcovered hd' with hjob | ⟨v, hv, hpc'⟩ | hsome
        · exact .inl (hmem.mpr hjob)
        · exact .inr (.inl ⟨v, hv, (hrunning v).mpr hpc'⟩)
        · exact .inr (.inr hsome)
      · rw [hexecutions]
        exact habsent
  · intro v hv
    have hne : v ≠ w := by omega
    simp [State.take, State.setWorker, hne]
  · intro v hv
    have hexited : s.workers v = .exited := by
      by_cases hvw : v = w
      · subst hvw
        simp [State.take, State.setWorker] at hv
      · simpa [State.take, State.setWorker, hvw] using hv
    have hempty := (h.exited v hexited).2
    simp [hjobs] at hempty

theorem Inv.complete (h : Inv numWorkers key tasks s) (hpc : s.workers w = .running c)
    {result : Except ε Unit} (hresult : tasks c result) :
    Inv numWorkers key tasks
      { s.setWorker w .counting with outcomes := Function.update s.outcomes c (some result) } := by
  have hw : w < numWorkers := h.lt_of_not_ready (by simp [hpc])
  obtain ⟨hmem, hnotjob, honce, hnone, hunique⟩ := (h.job c).running w hpc
  have hframe : WorkerFrame s { s.setWorker w .counting with outcomes := Function.update s.outcomes c (some result) } := by
    refine ⟨rfl, rfl, rfl, rfl, rfl, rfl, ?_, ?_⟩
    · intro v hv
      have hne : v ≠ w := by
        intro heq
        simp [heq ▸ hv] at hpc
      simpa [State.setWorker, hne] using hv
    · intro d r hr
      have hne : d ≠ c := by
        intro heq
        simp [heq, hnone] at hr
      simpa [hne] using hr
  apply hframe.inv h h.distinct
  · intro d
    obtain ⟨hqueued, hrun, hdone, hcovered, habsent⟩ := h.job d
    by_cases hd : d = c
    · subst hd
      constructor
      · exact fun hjob => absurd hjob hnotjob
      · intro v hv
        have hvw : v = w := by
          by_contra hne
          exact hne (hunique v (by simpa [State.setWorker, hne] using hv))
        simp [State.setWorker, hvw] at hv
      · intro r hr
        obtain rfl : result = r := by simpa using hr
        exact ⟨hresult, honce⟩
      · exact fun _ => .inr (.inr (by simp))
      · exact habsent
    · have hrunning (v : Nat) : (s.setWorker w .counting).workers v = .running d ↔
          s.workers v = .running d := by
        by_cases hv : v = w
        · subst hv
          simp [State.setWorker, hpc, Ne.symm hd]
        · simp [State.setWorker, hv]
      constructor
      · simpa [State.setWorker, hd] using hqueued
      · intro v hv
        obtain ⟨hres, hnj, hone, hno, huniq⟩ := hrun v ((hrunning v).mp hv)
        exact ⟨hres, hnj, hone, by simpa [hd] using hno, fun u hu => huniq u ((hrunning u).mp hu)⟩
      · intro r hr
        exact hdone r (by simpa [hd] using hr)
      · intro hres
        rcases hcovered hres with hjob | ⟨v, hv, hpc'⟩ | hsome
        · exact .inl hjob
        · exact .inr (.inl ⟨v, hv, (hrunning v).mpr hpc'⟩)
        · exact .inr (.inr (by simpa [hd] using hsome))
      · exact habsent
  · intro v hv
    have hne : v ≠ w := by omega
    simp [State.setWorker, hne]
  · intro v hv
    have hexited : s.workers v = .exited := by
      by_cases hvw : v = w
      · subst hvw
        simp [State.setWorker] at hv
      · simpa [State.setWorker, hvw] using hv
    exact h.exited v hexited

/-! ### Steps of the producer -/

omit [DecidableEq κ] in
theorem JobInv.congr (h : JobInv numWorkers tasks s c) (hresults : s'.results = s.results)
    (hjobs : s'.jobs = s.jobs)
    (hworkers : s'.workers = s.workers) (houtcomes : s'.outcomes = s.outcomes)
    (hexecutions : s'.executions = s.executions) :
    JobInv numWorkers tasks s' c := by
  constructor
  · rw [hjobs, hresults, hexecutions, houtcomes]
    exact h.queued
  · rw [hworkers, hjobs, hresults, hexecutions, houtcomes]
    exact h.running
  · rw [houtcomes, hexecutions]
    exact h.done
  · rw [hresults, hjobs, hworkers, houtcomes]
    exact h.covered
  · rw [hresults, hexecutions]
    exact h.absent

theorem Inv.not_mem_next (h : Inv numWorkers key tasks s) : s.next ∉ s.results := by
  rw [h.submission.results]
  intro hmem
  have hlt := h.submission.accepted_lt s.next ((firstsBy_sublist s.accepted).subset hmem)
  omega

/-- The producer moves on without a change of its data, apart from the flag. -/
theorem Inv.setProducer (h : Inv numWorkers key tasks s) {stopping : Bool} {pc : ProducerPc ε}
    (hflag : s.stopping = true → stopping = true) (hbefore : s.producer ≠ .inserted)
    (hafter : pc ≠ .inserted) (hpc : ProducerInv numWorkers { s with stopping := stopping } pc) :
    Inv numWorkers key tasks { s with stopping := stopping, producer := pc } := by
  obtain ⟨⟨haccepted, hsorted, hresults, hfresh, hsubmitted⟩, hdistinct, hjob, hunused, hexited, -⟩ := h
  refine ⟨⟨haccepted, hsorted, hresults, ?_, ?_⟩, hdistinct, ?_, hunused, ?_, ?_⟩
  · intro hinserted
    exact absurd hinserted hafter
  · intro k
    simpa [hbefore, hafter] using hsubmitted k
  · exact fun c => (hjob c).congr rfl rfl rfl rfl rfl
  · intro w hw
    obtain ⟨hstopping, hempty⟩ := hexited w hw
    exact ⟨hflag hstopping, hempty⟩
  · cases pc <;> exact hpc

theorem Inv.insert (h : Inv numWorkers key tasks s) (hpc : s.producer = .idle)
    (hkey : key s.next ∉ s.submitted) :
    Inv numWorkers key tasks { s with submitted := insert (key s.next) s.submitted, producer := .inserted } := by
  have hproducer := h.producer
  rw [hpc] at hproducer
  obtain ⟨⟨haccepted, hsorted, hresults, -, hsubmitted⟩, hdistinct, hjob, hunused, hexited, -⟩ := h
  have hsubmitted' (k : κ) : k ∈ s.submitted ↔ k ∈ s.results.map key := by
    simpa [hpc] using hsubmitted k
  refine ⟨⟨haccepted, hsorted, hresults, ?_, ?_⟩, hdistinct,
    fun c => (hjob c).congr rfl rfl rfl rfl rfl, hunused, hexited,
    hproducer⟩
  · exact fun _ hmem => hkey ((hsubmitted' _).mpr hmem)
  · intro k
    simp only [Finset.mem_insert, hsubmitted' k, true_and]
    exact or_comm

/-- A call that returns because its key is present, or that throws before it submits anything. -/
theorem Inv.skip (h : Inv numWorkers key tasks s) (hpc : s.producer = .idle) :
    Inv numWorkers key tasks { s with next := s.next + 1 } := by
  obtain ⟨⟨haccepted, hsorted, hresults, -, hsubmitted⟩, hdistinct, hjob, hunused, hexited, hproducer⟩ := h
  have hproducer' : s.stopping = false := by simpa [hpc, ProducerInv] using hproducer
  refine ⟨⟨?_, hsorted, hresults, ?_, ?_⟩, hdistinct, fun c => (hjob c).congr rfl rfl rfl rfl rfl,
    hunused, hexited, ?_⟩
  · exact fun c hc => Nat.lt_succ_of_lt (haccepted c hc)
  · simp [hpc]
  · simpa [hpc] using hsubmitted
  · show ProducerInv numWorkers _ s.producer
    rw [hpc]
    exact hproducer'

theorem Inv.accept (h : Inv numWorkers key tasks s) (hpc : s.producer = .idle)
    (hkey : key s.next ∈ s.submitted) :
    Inv numWorkers key tasks { s with next := s.next + 1, accepted := s.accepted ++ [s.next] } := by
  obtain ⟨⟨haccepted, hsorted, hresults, hfresh, hsubmitted⟩, hdistinct, hjob, hunused, hexited, hproducer⟩ := h.skip hpc
  have hpresent : key s.next ∈ (firstsBy key s.accepted).map key := by
    have hmem := (h.submission.submitted (key s.next)).mp hkey
    simpa [hpc, h.submission.results] using hmem
  refine ⟨⟨?_, ?_, ?_, hfresh, hsubmitted⟩, hdistinct, fun c => (hjob c).congr rfl rfl rfl rfl rfl,
    hunused, hexited, ?_⟩
  · intro c hc
    rcases List.mem_append.mp hc with hc | hc
    · exact haccepted c hc
    · obtain rfl : c = s.next := by simpa using hc
      exact Nat.lt_succ_self _
  · apply List.pairwise_append.mpr
    refine ⟨hsorted, by simp, ?_⟩
    intro a ha b hb
    obtain rfl : b = s.next := by simpa using hb
    exact h.submission.accepted_lt a ha
  · show s.results = firstsBy key (s.accepted ++ [s.next])
    rw [firstsBy_append, if_pos hpresent]
    exact hresults
  · show ProducerInv numWorkers _ s.producer
    rw [hpc]
    have hidle := h.producer
    rw [hpc] at hidle
    exact hidle

theorem Inv.push (h : Inv numWorkers key tasks s) (hpc : s.producer = .inserted) :
    Inv numWorkers key tasks s.push := by
  have hnew := h.not_mem_next
  obtain ⟨⟨haccepted, hsorted, hresults, hfresh, hsubmitted⟩, hdistinct, hjob, hunused, hexited, hproducer⟩ := h
  have hstopping : s.stopping = false := by simpa [hpc, ProducerInv] using hproducer
  have hfresh' : key s.next ∉ (firstsBy key s.accepted).map key := hresults ▸ hfresh hpc
  obtain ⟨hqueued, hrunning, hdone, -, habsent⟩ := hjob s.next
  have hnever : s.executions s.next = 0 := habsent hnew
  have hnone : s.outcomes s.next = none := by
    by_contra hsome
    obtain ⟨result, hresult⟩ := Option.ne_none_iff_exists'.mp hsome
    have honce := (hdone result hresult).2
    omega
  refine ⟨⟨?_, ?_, ?_, by simp [State.push], ?_⟩, ?_, ?_, hunused, ?_, hstopping⟩
  · intro c hc
    show c < s.next + 1
    rcases List.mem_append.mp hc with hc | hc
    · exact Nat.lt_succ_of_lt (haccepted c hc)
    · obtain rfl : c = s.next := by simpa using hc
      exact Nat.lt_succ_self _
  · apply List.pairwise_append.mpr
    refine ⟨hsorted, by simp, ?_⟩
    intro a ha b hb
    obtain rfl : b = s.next := by simpa using hb
    exact haccepted a ha
  · show s.results ++ [s.next] = firstsBy key (s.accepted ++ [s.next])
    rw [firstsBy_append, if_neg hfresh', hresults]
  · intro k
    have hk := hsubmitted k
    simp only [hpc, true_and] at hk
    simp [State.push, hk]
  · show (s.jobs ++ [s.next]).Nodup
    apply List.nodup_append.mpr
    refine ⟨hdistinct, by simp, ?_⟩
    intro a ha b hb hab
    obtain rfl : b = s.next := by simpa using hb
    exact hnew (hqueued (hab ▸ ha)).1
  · intro c
    obtain ⟨hqueued', hrunning', hdone', hcovered', habsent'⟩ := hjob c
    constructor
    · intro hc
      rcases List.mem_append.mp hc with hc | hc
      · obtain ⟨hmem, hrest⟩ := hqueued' hc
        exact ⟨List.mem_append_left _ hmem, hrest⟩
      · obtain rfl : c = s.next := by simpa using hc
        exact ⟨by simp [State.push], hnever, hnone⟩
    · intro w hw
      obtain ⟨hmem, hnotjob, hrest⟩ := hrunning' w hw
      have hne : c ≠ s.next := by
        intro heq
        exact hnew (heq ▸ hmem)
      exact ⟨List.mem_append_left _ hmem, by simp [State.push, hnotjob, hne], hrest⟩
    · exact hdone'
    · intro hc
      rcases List.mem_append.mp hc with hc | hc
      · exact (hcovered' hc).imp_left fun hjob => List.mem_append_left _ hjob
      · exact .inl (List.mem_append_right _ hc)
    · intro hc
      exact habsent' fun hmem => hc (List.mem_append_left _ hmem)
  · intro w hw
    have hstopped := (hexited w hw).1
    simp [hstopping] at hstopped

/-- Every handler of `enqueue` restores what the call found. -/
theorem rollBack_eq (s : State κ ε) (k : κ) (fault : Fault) :
    s.rollBack k fault = { s with submitted := s.submitted.erase k } := by
  cases fault <;> simp [State.rollBack]

theorem Inv.pushFails (h : Inv numWorkers key tasks s) (fault : Fault)
    (hpc : s.producer = .inserted) :
    Inv numWorkers key tasks { s.rollBack (key s.next) fault with producer := .idle, next := s.next + 1 } := by
  rw [rollBack_eq]
  obtain ⟨⟨haccepted, hsorted, hresults, hfresh, hsubmitted⟩, hdistinct, hjob, hunused, hexited, hproducer⟩ := h
  have hstopping : s.stopping = false := by simpa [hpc, ProducerInv] using hproducer
  refine ⟨⟨?_, hsorted, hresults, ?_, ?_⟩, hdistinct, fun c => (hjob c).congr rfl rfl rfl rfl rfl,
    hunused, hexited, hstopping⟩
  · exact fun c hc => Nat.lt_succ_of_lt (haccepted c hc)
  · simp
  · intro k
    have hk := hsubmitted k
    simp only [hpc, true_and] at hk
    simp only [Finset.mem_erase, hk, reduceCtorEq, false_and, or_false]
    constructor
    · rintro ⟨hne, hmem | heq⟩
      · exact hmem
      · exact absurd heq hne
    · intro hmem
      refine ⟨?_, .inl hmem⟩
      intro heq
      exact hfresh hpc (heq ▸ hmem)

theorem Inv.notifyOne (h : Inv numWorkers key tasks s) (hnotify : NotifyOne s s') :
    Inv numWorkers key tasks s' := by
  cases hnotify with
  | none => exact h
  | worker hworker =>
      exact h.setWorker (h.lt_of_not_ready (by simp [hworker])) (by simp [hworker]) (by simp [hworker]) (by simp) (by simp)

theorem Inv.notifyAll (h : Inv numWorkers key tasks s) : Inv numWorkers key tasks s.notifyAll := by
  apply h.moveWorkers
  · intro v c
    by_cases hv : s.workers v = .asleep <;> simp [hv]
  · intro v hv
    simp [hv]
  · intro v hv
    by_cases hasleep : s.workers v = .asleep
    · simp [hasleep] at hv
    · exact .inl (by simpa [hasleep] using hv)
  · intro v hv
    simp [h.unused v hv]

/-! ### Every step -/

omit [DecidableEq κ] in
theorem NotifyOne.producer_eq (hnotify : NotifyOne s s') : s'.producer = s.producer := by
  cases hnotify <;> rfl

theorem Inv.step (h : Inv numWorkers key tasks s) {a : Action}
    (hstep : Step numWorkers key tasks s a s') :
    Inv numWorkers key tasks s' := by
  have hproducer := h.producer
  cases hstep with
  | insert hpc hkey => exact h.insert hpc hkey
  | present hpc hkey => exact h.accept hpc hkey
  | insertFails hpc hkey => exact h.skip hpc
  | push hpc => exact h.push hpc
  | pushFails fault hpc => exact h.pushFails fault hpc
  | @notifyOne s₁ hpc hnotify =>
      have h₁ := h.notifyOne hnotify
      have hpc₁ : s₁.producer = .queued := hnotify.producer_eq.trans hpc
      have hstopping := h₁.producer
      rw [hpc₁] at hstopping
      exact h₁.setProducer id (by simp [hpc₁]) (by simp) hstopping
  | stop hpc => exact h.setProducer (fun _ => rfl) (by simp [hpc]) (by simp) rfl
  | notifyAll hpc =>
      rw [hpc] at hproducer
      exact h.notifyAll.setProducer id (by simp [State.notifyAll, hpc]) (by simp) ⟨hproducer, Nat.zero_le _, by simp⟩
  | @join w hpc hw hexited =>
      rw [hpc] at hproducer
      obtain ⟨hstopping, -, hbelow⟩ := hproducer
      refine h.setProducer id (by simp [hpc]) (by simp) ⟨hstopping, hw, ?_⟩
      intro v hv
      rcases Nat.lt_succ_iff_lt_or_eq.mp hv with hlt | heq
      · exact hbelow v hlt
      · exact heq ▸ hexited
  | joined hpc =>
      rw [hpc] at hproducer
      obtain ⟨hstopping, -, hall⟩ := hproducer
      exact h.setProducer id (by simp [hpc]) (by simp) ⟨hstopping, hall, fun j hj => absurd hj (Nat.not_lt_zero j)⟩
  | @get i c hpc hresult houtcome =>
      rw [hpc] at hproducer
      obtain ⟨hstopping, hall, hbelow⟩ := hproducer
      refine h.setProducer id (by simp [hpc]) (by simp) ⟨hstopping, hall, ?_⟩
      intro j hj d hd
      rcases Nat.lt_succ_iff_lt_or_eq.mp hj with hlt | rfl
      · exact hbelow j hlt d hd
      · obtain rfl : c = d := Option.some.inj (hresult.symm.trans hd)
        exact houtcome
  | @getThrows i c error hpc hresult houtcome =>
      rw [hpc] at hproducer
      obtain ⟨hstopping, hall, hbelow⟩ := hproducer
      exact h.setProducer id (by simp [hpc]) (by simp) ⟨hstopping, hall, i, c, hresult, houtcome, hbelow⟩
  | getLast hpc =>
      rw [hpc] at hproducer
      obtain ⟨hstopping, hall, hbelow⟩ := hproducer
      refine h.setProducer id (by simp [hpc]) (by simp) ⟨hstopping, hall, ?_⟩
      intro c hc
      obtain ⟨j, hj⟩ := List.mem_iff_getElem?.mp hc
      exact hbelow j (List.getElem?_eq_some_iff.mp hj).1 c hj
  | sleep hw hpc hjobs hstopping => exact h.setWorker hw (by simp [hpc]) (by simp [hpc]) (by simp) (by simp)
  | wake hpc => exact h.notifyOne (.worker hpc)
  | take hw hpc hjobs => exact h.take hw hpc hjobs
  | exit hw hpc hjobs hstopping =>
      exact h.setWorker hw (by simp [hpc]) (by simp [hpc]) (by simp)
        fun _ => ⟨hstopping, hjobs⟩
  | complete hpc hresult => exact h.complete hpc hresult
  | @count w hpc =>
      have hready : Inv numWorkers key tasks (s.setWorker w .ready) :=
        h.setWorker (h.lt_of_not_ready (by simp [hpc])) (by simp [hpc]) (by simp [hpc]) (by simp) (by simp)
      obtain ⟨hsubmission, hdistinct, hjob, hunused, hexited, hproducer'⟩ := hready
      exact ⟨⟨hsubmission.accepted_lt, hsubmission.sorted, hsubmission.results, hsubmission.fresh, hsubmission.submitted⟩,
        hdistinct, fun c => (hjob c).congr rfl rfl rfl rfl rfl, hunused, hexited, by
          show ProducerInv numWorkers _ s.producer
          have hp : ProducerInv numWorkers (s.setWorker w .ready) s.producer := hproducer'
          cases hpc' : s.producer <;> rw [hpc'] at hp <;> exact hp⟩

theorem inv_of_reachable (h : (system numWorkers key tasks).Reachable s) :
    Inv numWorkers key tasks s := by
  apply h.invariant
  · rintro _ ⟨-, rfl⟩
    exact inv_init
  · intro s a s' hinv hstep
    exact hinv.step hstep

/-! ### The end of `finish` -/

/-- What holds when `finish` has ended: of the accepted calls with one key, the first one had its
job run, exactly once and with a result; no other job was run; and the result is that of the first
job that failed, or normal if none did. -/
structure Finished (key : Nat → κ) (tasks : Nat → Except ε Unit → Prop) (s : State κ ε)
    (result : Except ε Unit) :
    Prop where
  executed : ∀ c ∈ s.accepted, ∃ d, s.accepted.find? (fun d => key d = key c) = some d ∧
    s.executions d = 1
  executions : ∀ d, s.executions d = if s.accepted.find? (fun c => key c = key d) = some d then 1 else 0
  outcome : ∀ d, s.executions d = 1 → ∃ outcome, s.outcomes d = some outcome ∧ tasks d outcome
  ok_iff : result = .ok () ↔ ∀ d, s.executions d = 1 → s.outcomes d = some (.ok ())
  error_iff : ∀ error, result = .error error ↔
    ∃ d, s.executions d = 1 ∧ s.outcomes d = some (.error error) ∧
    ∀ d', d' < d → s.executions d' = 1 → s.outcomes d' = some (.ok ())

/-- Once every worker has left, every job is done. -/
theorem Inv.all_done (h : Inv numWorkers key tasks s) (hpositive : 0 < numWorkers)
    (hexited : ∀ v, v < numWorkers → s.workers v = .exited) (hc : c ∈ s.results) :
    s.executions c = 1 ∧ ∃ outcome, s.outcomes c = some outcome ∧ tasks c outcome := by
  have hempty : s.jobs = [] := (h.exited 0 (hexited 0 hpositive)).2
  obtain ⟨-, -, hdone, hcovered, -⟩ := h.job c
  have hsome : s.outcomes c ≠ none := by
    rcases hcovered hc with hjob | ⟨w, hw, hpc⟩ | hsome
    · simp [hempty] at hjob
    · simp [hexited w hw] at hpc
    · exact hsome
  obtain ⟨outcome, houtcome⟩ := Option.ne_none_iff_exists'.mp hsome
  obtain ⟨htask, honce⟩ := hdone outcome houtcome
  exact ⟨honce, outcome, houtcome, htask⟩

theorem Inv.results_sorted (h : Inv numWorkers key tasks s) : s.results.Pairwise (· < ·) := by
  rw [h.submission.results]
  exact h.submission.sorted.sublist (firstsBy_sublist s.accepted)

/-- A result with a smaller number is at an earlier position. -/
theorem Inv.lt_of_result_lt (h : Inv numWorkers key tasks s) {i j d : Nat}
    (hi : s.results[i]? = some c)
    (hj : s.results[j]? = some d) (hlt : d < c) : j < i := by
  obtain ⟨hi', rfl⟩ := List.getElem?_eq_some_iff.mp hi
  obtain ⟨hj', rfl⟩ := List.getElem?_eq_some_iff.mp hj
  by_contra hle
  rcases Nat.lt_or_eq_of_le (Nat.not_lt.mp hle) with hij | rfl
  · have hsorted := List.pairwise_iff_getElem.mp h.results_sorted i j hi' hj' hij
    omega
  · omega

theorem finished_of_ended (hs : (system numWorkers key tasks).Reachable s) {result : Except ε Unit}
    (hended : s.producer = .ended result) : Finished key tasks s result := by
  have hpositive : 0 < numWorkers := by
    obtain ⟨s₀, ⟨hpositive, -⟩, -⟩ := hs
    exact hpositive
  have h := inv_of_reachable hs
  have hproducer := h.producer
  rw [hended] at hproducer
  obtain ⟨-, hexited, hresult⟩ := hproducer
  have hdone (c : Nat) (hc : c ∈ s.results) := h.all_done hpositive hexited hc
  have hmem (d : Nat) : d ∈ s.results ↔ s.accepted.find? (fun c => key c = key d) = some d := by
    rw [h.submission.results]
    exact mem_firstsBy
  have honce (d : Nat) : s.executions d = 1 ↔ d ∈ s.results := by
    constructor
    · intro hd
      by_contra habsent
      have hnever := (h.job d).absent habsent
      omega
    · exact fun hd => (hdone d hd).1
  have herror (error : ε) (hend : result = .error error) : ∃ d, s.executions d = 1 ∧
      s.outcomes d = some (.error error) ∧
      ∀ d', d' < d → s.executions d' = 1 → s.outcomes d' = some (.ok ()) := by
    subst hend
    obtain ⟨i, c, hc, houtcome, hbelow⟩ := hresult
    refine ⟨c, (honce c).mpr (List.mem_of_getElem? hc), houtcome, ?_⟩
    intro d hd hexecuted
    obtain ⟨j, hj⟩ := List.mem_iff_getElem?.mp ((honce d).mp hexecuted)
    exact hbelow j (h.lt_of_result_lt hc hj hd) d hj
  constructor
  · intro c hc
    have hsome : (s.accepted.find? fun d => key d = key c).isSome = true :=
      List.find?_isSome.mpr ⟨c, hc, by simp⟩
    obtain ⟨d, hd⟩ := Option.isSome_iff_exists.mp hsome
    have hkey : key d = key c := by simpa using List.find?_some hd
    exact ⟨d, hd, (honce d).mpr ((hmem d).mpr (by rw [hkey, hd]))⟩
  · intro d
    by_cases hd : d ∈ s.results
    · rw [if_pos ((hmem d).mp hd), (honce d).mpr hd]
    · rw [if_neg fun hfirst => hd ((hmem d).mpr hfirst), (h.job d).absent hd]
  · exact fun d hd => (hdone d ((honce d).mp hd)).2
  · constructor
    · intro hend d hd
      subst hend
      exact hresult d ((honce d).mp hd)
    · intro hall
      cases result with
      | ok _ => rfl
      | error error =>
          obtain ⟨d, hd, houtcome, -⟩ := herror error rfl
          simp [hall d hd] at houtcome
  · intro error
    constructor
    · exact herror error
    · rintro ⟨d, hd, houtcome, hbelow⟩
      cases result with
      | ok _ =>
          have hok := hresult d ((honce d).mp hd)
          simp [hok] at houtcome
      | error error' =>
          -- neither of the two failed jobs comes before the other
          obtain ⟨c, hc, houtcome', hbelow'⟩ := herror error' rfl
          rcases Nat.lt_trichotomy c d with hlt | rfl | hlt
          · simp [hbelow c hlt hc] at houtcome'
          · rw [houtcome] at houtcome'
            simpa using houtcome'.symm
          · simp [hbelow' d hlt hd] at houtcome

end

end DeepJit.Precompiler
