import DeepJit.Utils.ExecutorInvariant

/-!
# Tasks are isolated

Every step of a caller keeps the invariant, so it holds in every reachable state. A task is invoked
once at most, a call ends with the result of its own task, and a worker that was retired changes
nothing for any later call.
-/

namespace DeepJit.Executor

section

variable {α ε : Type} {timeout : Nat → Int} {tasks : Nat → Except ε α → Prop} {s s' : State α ε}
  {c k t : Nat}

open State

/-! ### Steps of a caller -/

/-- What a step of caller `c` leaves alone. -/
structure OnlyCaller (c : Nat) (s s' : State α ε) : Prop where
  workers : s'.workers = s.workers
  executions : s'.executions = s.executions
  promises : s'.promises = s.promises
  dropped : s'.dropped = s.dropped
  callers : ∀ d, d ≠ c → s'.callers d = s.callers d
  home : ∀ d, d ≠ c → s'.home d = s.home d
  submitted : s.home c ≠ none → s'.home c = s.home c

namespace OnlyCaller

theorem unsubmitted (h : OnlyCaller c s s') {d : Nat} (hd : d ≠ c) (hu : s.Unsubmitted d) :
    s'.Unsubmitted d := by
  unfold State.Unsubmitted
  rw [h.home d hd, h.executions, h.promises, h.dropped]
  exact hu

theorem outcome (h : OnlyCaller c s s') {d : Nat} (hd : d ≠ c) {outcome : Outcome α ε}
    (hc : OutcomeInv timeout s d outcome) : OutcomeInv timeout s' d outcome := by
  cases outcome with
  | returned value | raised error =>
      unfold OutcomeInv
      rw [h.promises]
      exact hc
  | ioTimeout => exact hc
  | invalidTimeout => exact ⟨hc.1, h.unsubmitted hd hc.2⟩
  | noWorker | destroyed => exact h.unsubmitted hd hc

theorem task (h : OnlyCaller c s s') (ht : TaskInv tasks s t) : TaskInv tasks s' t := by
  constructor
  · rw [h.executions]
    exact ht.once
  · rw [h.promises, h.executions]
    exact ht.promised
  · rw [h.dropped, h.executions, h.workers]
    intro hdropped
    obtain ⟨hnever, k, hhome, hexited⟩ := ht.dropped hdropped
    refine ⟨hnever, k, ?_, hexited⟩
    by_cases hd : t = c
    · subst hd
      rw [h.submitted (by simp [hhome]), hhome]
    · rw [h.home t hd, hhome]

/-- A context that keeps its task, and whose mark as stopped is not taken back. -/
theorem context (h : OnlyCaller c s s') (hc : ContextInv s k)
    (hfresh : s'.numContexts ≤ k → s.numContexts ≤ k ∧ s'.contexts k = s.contexts k)
    (htask : (s'.contexts k).task = (s.contexts k).task)
    (hstopped : (s.contexts k).stopped = true → (s'.contexts k).stopped = true)
    (hunstopped : k < s'.numContexts → (s'.contexts k).stopped = false → s'.current = some k)
    (howner : s.Holds k c → (s'.callers c).watched = some k ∨ (s'.contexts k).stopped = true) :
    ContextInv s' k := by
  have hholds (t : Nat) : s'.Holds k t ↔ s.Holds k t := by
    unfold State.Holds
    rw [htask, h.workers]
  constructor
  · intro hk
    obtain ⟨hk', hcontext⟩ := hfresh hk
    rw [hcontext, h.workers]
    exact hc.fresh hk'
  · exact hunstopped
  · rw [htask, h.workers, h.executions, h.promises, h.dropped]
    exact hc.waiting
  · rw [htask, h.workers, h.executions, h.promises, h.dropped]
    exact hc.running
  · rw [htask, h.workers, h.executions, h.promises, h.dropped]
    exact hc.completed
  · rw [h.workers]
    exact fun hexited => hstopped (hc.exited hexited)
  · intro t ht
    have hheld := (hholds t).mp ht
    obtain ⟨hhome, hwatched⟩ := hc.owner t hheld
    by_cases hd : t = c
    · subst hd
      exact ⟨by rw [h.submitted (by simp [hhome]), hhome], howner hheld⟩
    · rw [h.home t hd, h.callers t hd]
      exact ⟨hhome, hwatched.imp_right hstopped⟩

/-- While no other caller is inside `run_lock`, it remains to look at the caller of the step and at
the contexts. -/
theorem inv (h : OnlyCaller c s s') (hinv : Inv timeout tasks s)
    (halone : ∀ d, d ≠ c → ¬(s.callers d).Inside)
    (hlock : (s'.callers c).Inside ↔ s'.runLock = some c)
    (hother : ∀ d, d ≠ c → s'.runLock ≠ some d)
    (hcurrent : ∀ k, s'.current = some k → k < s'.numContexts)
    (hretiring : ∀ k, s'.current = some k → (s'.contexts k).stopped = true →
      ∃ o, s'.callers c = .stopping k o)
    (hcontext : ∀ k, ContextInv s' k) (hcaller : CallerInv timeout s' c (s'.callers c)) :
    Inv timeout tasks s' := by
  constructor
  · intro d
    by_cases hd : d = c
    · subst hd
      exact hlock
    · rw [h.callers d hd]
      exact ⟨fun hinside => absurd hinside (halone d hd), fun hl => absurd hl (hother d hd)⟩
  · exact hcurrent
  · intro k hk hstopped
    exact ⟨c, hretiring k hk hstopped⟩
  · exact hcontext
  · intro t
    exact h.task (hinv.task t)
  · intro d
    by_cases hd : d = c
    · subst hd
      exact hcaller
    · rw [h.callers d hd]
      have hd' := hinv.caller d
      have houtside := halone d hd
      cases hpc : s.callers d with rw [hpc] at hd' houtside
      | idle | queued => exact h.unsubmitted hd hd'
      | ended outcome => exact h.outcome hd hd'
      | locked | asleep | awake | timedOut | got | stopping => exact absurd trivial houtside

end OnlyCaller

/-- A caller moves on without a change of anything else. -/
theorem Inv.setCaller (h : Inv timeout tasks s) {pc : CallerPc α ε}
    (hinside : pc.Inside ↔ (s.callers c).Inside)
    (hwatched : ∀ k, (s.callers c).watched = some k → pc.watched = some k)
    (hstopping : ∀ k o, s.callers c ≠ .stopping k o) (hpc : CallerInv timeout s c pc) :
    Inv timeout tasks (s.setCaller c pc) := by
  constructor
  · intro d
    by_cases hd : d = c
    · subst hd
      simpa [State.setCaller, hinside] using h.lock d
    · simpa [State.setCaller, hd] using h.lock d
  · exact h.current_lt
  · intro k hk hstopped
    obtain ⟨d, o, hd⟩ := h.retiring k hk hstopped
    have hne : d ≠ c := by
      rintro rfl
      exact hstopping k o hd
    exact ⟨d, o, by simpa [State.setCaller, hne] using hd⟩
  · intro k
    obtain ⟨hfresh, hunstopped, hwaiting, hrunning, hcompleted, hexited, howner⟩ := h.context k
    refine ⟨hfresh, hunstopped, hwaiting, hrunning, hcompleted, hexited, ?_⟩
    intro t ht
    obtain ⟨hhome, hwatch⟩ := howner t ht
    refine ⟨hhome, ?_⟩
    by_cases hd : t = c
    · subst hd
      exact hwatch.imp_left fun hw => by simpa [State.setCaller] using hwatched k hw
    · simpa [State.setCaller, hd] using hwatch
  · exact fun t => ⟨(h.task t).once, (h.task t).promised, (h.task t).dropped⟩
  · intro d
    by_cases hd : d = c
    · subst hd
      simp only [State.setCaller, Function.update_self]
      cases pc <;> exact hpc
    · simp only [State.setCaller, Function.update_of_ne hd]
      have hd' := h.caller d
      cases hpc' : s.callers d <;> rw [hpc'] at hd' <;> exact hd'

/-- A caller goes on watching its context. -/
theorem Inv.keepWatching (h : Inv timeout tasks s) {pc : CallerPc α ε}
    (hbefore : (s.callers c).watched = some k)
    (hafter : pc.watched = some k) (hpc : CallerInv timeout s c pc) :
    Inv timeout tasks (s.setCaller c pc) := by
  apply h.setCaller _ _ _ hpc
  · exact ⟨fun _ => CallerPc.inside_of_watched hbefore, fun _ => CallerPc.inside_of_watched hafter⟩
  · intro j hj
    rw [hafter, ← hbefore, hj]
  · intro j outcome hstopping
    rw [hstopping] at hbefore
    simp [CallerPc.watched] at hbefore

theorem not_holds_of_unsubmitted (h : ContextInv s k) (hc : s.Unsubmitted c) : ¬s.Holds k c := by
  intro hholds
  have hhome := (h.owner c hholds).1
  simp [hc.1] at hhome

theorem Inv.close (h : Inv timeout tasks s) : Inv timeout tasks { s with closed := true } := by
  refine ⟨h.lock, h.current_lt, h.retiring, ?_, ?_, ?_⟩
  · intro k
    obtain ⟨hfresh, hunstopped, hwaiting, hrunning, hcompleted, hexited, howner⟩ := h.context k
    exact ⟨hfresh, hunstopped, hwaiting, hrunning, hcompleted, hexited, howner⟩
  · exact fun t => ⟨(h.task t).once, (h.task t).promised, (h.task t).dropped⟩
  · intro c
    have hc := h.caller c
    show CallerInv timeout _ c (s.callers c)
    cases hpc : s.callers c <;> rw [hpc] at hc <;> exact hc

theorem Inv.acquire (h : Inv timeout tasks s) (hpc : s.callers c = .queued)
    (hlock : s.runLock = none) :
    Inv timeout tasks ({ s with runLock := some c }.setCaller c .locked) := by
  have hc : s.Unsubmitted c := by simpa [hpc, CallerInv] using h.caller c
  have houtside (d : Nat) : ¬(s.callers d).Inside := by simp [h.lock d, hlock]
  have hframe : OnlyCaller c s ({ s with runLock := some c }.setCaller c .locked) := by
    constructor <;> simp +contextual [State.setCaller]
  apply hframe.inv h
  · exact fun d _ => houtside d
  · simp [State.setCaller, CallerPc.Inside]
  · intro d hd
    simpa [State.setCaller] using Ne.symm hd
  · exact h.current_lt
  · intro k hk hstopped
    obtain ⟨d, o, hd⟩ := h.retiring k hk hstopped
    exact absurd (by simp [hd, CallerPc.Inside]) (houtside d)
  · intro k
    have hk := h.context k
    exact hframe.context hk (fun hfresh => ⟨hfresh, rfl⟩) rfl id hk.unstopped
      fun hholds => absurd hholds (not_holds_of_unsubmitted hk hc)
  · simp only [State.setCaller, Function.update_self]
    exact hc

theorem Inv.create (h : Inv timeout tasks s) (hpc : s.callers c = .locked)
    (hcontext : s.current = none) :
    Inv timeout tasks { s with current := some s.numContexts, numContexts := s.numContexts + 1 } := by
  have hc : s.Unsubmitted c := by simpa [hpc, CallerInv] using h.caller c
  have hinside : (s.callers c).Inside := by simp [hpc, CallerPc.Inside]
  have hlock := (h.lock c).mp hinside
  have hframe : OnlyCaller c s { s with current := some s.numContexts, numContexts := s.numContexts + 1 } := by
    constructor <;> simp
  apply hframe.inv h
  · exact fun d hd => h.alone hinside hd
  · exact h.lock c
  · intro d hd
    simpa [hlock] using Ne.symm hd
  · intro k hk
    obtain rfl := Option.some.inj hk
    exact Nat.lt_succ_self _
  · intro k hk hstopped
    obtain rfl := Option.some.inj hk
    have hfresh := ((h.context s.numContexts).fresh (Nat.le_refl _)).1
    simp [hfresh] at hstopped
  · intro k
    have hk := h.context k
    refine hframe.context hk (fun hfresh => ⟨Nat.le_of_succ_le hfresh, rfl⟩) rfl id ?_
      fun hholds => absurd hholds (not_holds_of_unsubmitted hk hc)
    intro hlt hlive
    rcases Nat.lt_succ_iff_lt_or_eq.mp hlt with hlt | rfl
    · simpa [hcontext] using hk.unstopped hlt hlive
    · rfl
  · simp only [hpc]
    exact hc

/-- The end of a call, which may reset the current context if that is retired. -/
theorem Inv.release (h : Inv timeout tasks s) (hinside : (s.callers c).Inside)
    {context : Option Nat}
    {outcome : Outcome α ε} (hstays : ∀ k, context = some k →
      s.current = some k ∧ (s.contexts k).stopped = false)
    (hunstopped : ∀ k, k < s.numContexts → (s.contexts k).stopped = false → context = some k)
    (hholds : ∀ k, s.Holds k c → (s.contexts k).stopped = true)
    (houtcome : OutcomeInv timeout s c outcome) :
    Inv timeout tasks ({ s with current := context, runLock := none }.setCaller c (.ended outcome)) := by
  have hframe : OnlyCaller c s ({ s with current := context, runLock := none }.setCaller c (.ended outcome)) := by
    constructor <;> simp +contextual [State.setCaller]
  apply hframe.inv h
  · exact fun d hd => h.alone hinside hd
  · simp [State.setCaller, CallerPc.Inside]
  · simp [State.setCaller]
  · exact fun k hk => h.current_lt k (hstays k hk).1
  · intro k hk hstopped
    have hlive := (hstays k hk).2
    have hstopped' : (s.contexts k).stopped = true := hstopped
    simp [hlive] at hstopped'
  · intro k
    exact hframe.context (h.context k) (fun hfresh => ⟨hfresh, rfl⟩) rfl id (hunstopped k)
      fun hk => .inr (hholds k hk)
  · simp only [State.setCaller, Function.update_self]
    cases outcome <;> exact houtcome

/-- The start of `stop`. -/
theorem Inv.retire (h : Inv timeout tasks s) (halone : ∀ d, d ≠ c → ¬(s.callers d).Inside)
    (hcontext : s.current = some k)
    (closed : Bool) {outcome : Outcome α ε} (houtcome : OutcomeInv timeout s c outcome)
    (hhome : s.home c = none ∨ s.home c = some k) :
    Inv timeout tasks
      ({ s.markStopped k with runLock := some c, closed := closed }.setCaller c (.stopping k outcome)) := by
  have hframe : OnlyCaller c s
      ({ s.markStopped k with runLock := some c, closed := closed }.setCaller c (.stopping k outcome)) := by
    constructor <;> simp +contextual [State.setCaller, markStopped, setContext]
  apply hframe.inv h halone
  · simp [State.setCaller, CallerPc.Inside]
  · intro d hd
    simpa [State.setCaller] using Ne.symm hd
  · exact h.current_lt
  · intro j hj _
    have hjk : k = j := Option.some.inj (hcontext.symm.trans hj)
    exact ⟨outcome, by simp [State.setCaller, hjk]⟩
  · intro j
    have hj := h.context j
    by_cases hjk : j = k
    · subst hjk
      apply hframe.context hj
      · intro hfresh
        exact absurd (h.current_lt j hcontext) (Nat.not_lt.mpr hfresh)
      all_goals simp [State.setCaller, markStopped, setContext]
    · apply hframe.context hj
      · intro hfresh
        exact ⟨hfresh, by simp [State.setCaller, markStopped, setContext, hjk]⟩
      · simp [State.setCaller, markStopped, setContext, hjk]
      · simp [State.setCaller, markStopped, setContext, hjk]
      · simpa [State.setCaller, markStopped, setContext, hjk] using hj.unstopped
      · intro hholds
        have howner := (hj.owner c hholds).1
        rcases hhome with hnone | hsome
        · simp [hnone] at howner
        · exact absurd (Option.some.inj (howner.symm.trans hsome)) hjk
  · simp only [State.setCaller, Function.update_self]
    refine ⟨hcontext, by simp [markStopped, setContext], ?_⟩
    cases outcome <;> exact houtcome

/-- At a submission the context is neither retired nor occupied. -/
theorem Inv.free_of_locked (h : Inv timeout tasks s) (hpc : s.callers c = .locked)
    (hcontext : s.current = some k) :
    (s.contexts k).stopped = false ∧ s.Vacant k := by
  have hinside : (s.callers c).Inside := by simp [hpc, CallerPc.Inside]
  have hlive : (s.contexts k).stopped = false := by
    by_contra hstopped
    obtain ⟨d, o, hd⟩ := h.retiring k hcontext (by simpa using hstopped)
    have hne : d ≠ c := by
      rintro rfl
      simp [hpc] at hd
    exact h.alone hinside hne (by simp [hd, CallerPc.Inside])
  have hnotheld (t : Nat) : ¬s.Holds k t := by
    intro hholds
    have hwatched := h.watcher hholds hlive
    by_cases ht : t = c
    · subst ht
      simp [hpc, CallerPc.watched] at hwatched
    · exact h.alone hinside ht (CallerPc.inside_of_watched hwatched)
  exact ⟨hlive, Option.eq_none_iff_forall_ne_some.mpr fun t ht => hnotheld t (.inl ht),
    Option.eq_none_iff_forall_ne_some.mpr fun t ht => hnotheld t (.inr ht)⟩

theorem Inv.looping_of_locked (h : Inv timeout tasks s) (hpc : s.callers c = .locked)
    (hcontext : s.current = some k) :
    (s.workers k).Looping := by
  obtain ⟨hlive, -, hheld⟩ := h.free_of_locked hpc hcontext
  cases hworker : s.workers k with rw [hworker] at hheld
  | ready | asleep | notifying => exact trivial
  | running t | completed t => simp at hheld
  | exited =>
      have hstopped := (h.context k).exited hworker
      simp [hlive] at hstopped

theorem Inv.submit (h : Inv timeout tasks s) (hpc : s.callers c = .locked)
    (hcontext : s.current = some k) (hawake : s.workers k ≠ .asleep) :
    Inv timeout tasks ((s.submit k c).setCaller c (.asleep k)) := by
  obtain ⟨hlive, hslot, hheld⟩ := h.free_of_locked hpc hcontext
  have hlooping := h.looping_of_locked hpc hcontext
  have hinside : (s.callers c).Inside := by simp [hpc, CallerPc.Inside]
  have hlock := (h.lock c).mp hinside
  obtain ⟨hhome, hnever, hpromise, hkept⟩ : s.Unsubmitted c := by
    simpa [hpc, CallerInv] using h.caller c
  have hframe : OnlyCaller c s ((s.submit k c).setCaller c (.asleep k)) := by
    constructor <;> simp +contextual [State.setCaller, State.submit, setContext, hhome]
  have hworker : s.workers k = .ready ∨ s.workers k = .notifying := by
    cases hw : s.workers k <;> simp_all [WorkerPc.Looping]
  apply hframe.inv h
  · exact fun d hd => h.alone hinside hd
  · simpa [State.setCaller, State.submit, setContext, CallerPc.Inside] using hlock
  · intro d hd
    simpa [State.setCaller, State.submit, setContext, hlock] using Ne.symm hd
  · exact h.current_lt
  · intro j hj hstopped
    obtain rfl : k = j := Option.some.inj (hcontext.symm.trans hj)
    simp [State.setCaller, State.submit, setContext, hlive] at hstopped
  · intro j
    have hj := h.context j
    by_cases hjk : j = k
    · subst hjk
      constructor
      · intro hfresh
        exact absurd (h.current_lt j hcontext) (Nat.not_lt.mpr hfresh)
      · exact fun _ _ => hcontext
      · simp [State.setCaller, State.submit, setContext, hworker, hnever, hpromise, hkept]
      · intro t hrunning
        have hrunning' : s.workers j = .running t := hrunning
        simp [hrunning'] at hheld
      · intro t hcompleted
        have hcompleted' : s.workers j = .completed t := hcompleted
        simp [hcompleted'] at hheld
      · simpa [State.setCaller, State.submit, setContext] using hj.exited
      · intro t ht
        have hct : c = t := by simpa [State.Holds, State.setCaller, State.submit, setContext, hheld] using ht
        simp [State.setCaller, State.submit, setContext, hct, CallerPc.watched]
    · apply hframe.context hj
      · intro hfresh
        exact ⟨hfresh, by simp [State.setCaller, State.submit, setContext, hjk]⟩
      · simp [State.setCaller, State.submit, setContext, hjk]
      · simp [State.setCaller, State.submit, setContext, hjk]
      · simpa [State.setCaller, State.submit, setContext, hjk] using hj.unstopped
      · intro hholds
        exact absurd hholds (not_holds_of_unsubmitted hj ⟨hhome, hnever, hpromise, hkept⟩)
  · simp only [State.setCaller, Function.update_self]
    refine ⟨⟨hcontext, by simp [State.submit, setContext, hlive], by simp [State.submit, setContext]⟩, ?_⟩
    simp [State.Awaits, State.Holds, State.submit, setContext]

theorem Inv.notifyOne (h : Inv timeout tasks s) (hn : NotifyOne s k s') : Inv timeout tasks s' := by
  cases hn with
  | none => exact h
  | worker hworker =>
      have hk : k < s.numContexts := by
        by_contra hfresh
        have hready := ((h.context k).fresh (Nat.not_lt.mp hfresh)).2
        simp [hworker] at hready
      exact h.setWorker_looping hk (by simp [hworker, WorkerPc.Looping]) trivial fun _ => .inl rfl
  | @caller d hcaller =>
      have hd := h.caller d
      rw [hcaller] at hd
      exact h.keepWatching (by rw [hcaller]; rfl) rfl ⟨hd.1, hd.2, by simp⟩

theorem NotifyOne.same (hn : NotifyOne s k s') : s'.runLock = s.runLock ∧ s'.current = s.current ∧
    s'.numContexts = s.numContexts ∧ s'.contexts = s.contexts ∧ s'.promises = s.promises ∧
    s'.executions = s.executions ∧ s'.home = s.home ∧ s'.dropped = s.dropped := by
  cases hn <;> exact ⟨rfl, rfl, rfl, rfl, rfl, rfl, rfl, rfl⟩

theorem NotifyOne.caller_eq (hn : NotifyOne s k s') (hc : s.callers c ≠ .asleep k) :
    s'.callers c = s.callers c := by
  cases hn with
  | none | worker => rfl
  | @caller d hd =>
      have hne : c ≠ d := by
        rintro rfl
        exact hc hd
      simp [State.setCaller, hne]

/-! ### Every step -/

theorem Inv.step (h : Inv timeout tasks s) {a : Action} (hstep : Step timeout tasks s a s') :
    Inv timeout tasks s' := by
  cases hstep with
  | @invoke c hpc hopen =>
      have hc : s.Unsubmitted c := by simpa [hpc, CallerInv] using h.caller c
      apply h.setCaller
      · split <;> simp [hpc, CallerPc.Inside]
      · simp [hpc, CallerPc.watched]
      · simp [hpc]
      · split
        · exact ⟨by assumption, hc⟩
        · exact hc
  | acquire hpc hlock => exact h.acquire hpc hlock
  | create hpc hcontext => exact h.create hpc hcontext
  | @startFails c hpc hcontext =>
      have hc : s.Unsubmitted c := by simpa [hpc, CallerInv] using h.caller c
      apply h.release (by simp [hpc, CallerPc.Inside])
      · simp [hcontext]
      · exact fun k => (h.context k).unstopped
      · exact fun k hholds => absurd hholds (not_holds_of_unsubmitted (h.context k) hc)
      · exact hc
  | @submit s₁ c k hpc hcontext hnotify =>
      have hlt := h.current_lt k hcontext
      have hlooping := h.looping_of_locked hpc hcontext
      have hlocked : (s.submit k c).callers c ≠ .asleep k := by simp [State.submit, setContext, hpc]
      have hinside : (s.callers c).Inside := by simp [hpc, CallerPc.Inside]
      cases hnotify with
      | none hworker => exact h.submit hpc hcontext hworker
      | worker hworker =>
          have hready : Inv timeout tasks (s.setWorker k .ready) :=
            h.setWorker_looping hlt hlooping trivial fun _ => .inl rfl
          exact hready.submit hpc hcontext (by simp [setWorker])
      | @caller d hd =>
          have hne : d ≠ c := by
            rintro rfl
            exact hlocked hd
          have hd' : s.callers d = .asleep k := hd
          exact absurd (by simp [hd', CallerPc.Inside]) (h.alone hinside hne)
  | @wake c k hpc =>
      have hc := h.caller c
      rw [hpc] at hc
      exact h.keepWatching (by rw [hpc]; rfl) rfl ⟨hc.1, hc.2, by simp⟩
  | @expire c k hpc htimeout =>
      have hc := h.caller c
      have haw : s.Owns c k ∧ s.Awaits c k := by
        rcases hpc with hpc | hpc <;> rw [hpc] at hc
        · exact hc
        · exact ⟨hc.1, hc.2.1⟩
      have hwatched : (s.callers c).watched = some k := by
        rcases hpc with hpc | hpc <;> rw [hpc] <;> rfl
      exact h.keepWatching hwatched rfl ⟨haw.1, haw.2, fun _ => htimeout⟩
  | @seeDone c k expired hpc hdone =>
      have hc := h.caller c
      rw [hpc] at hc
      exact h.keepWatching (by rw [hpc]; rfl) rfl ⟨hc.1, hc.2.1.2 hdone⟩
  | @seeExpired c k hpc hdone =>
      have hc := h.caller c
      rw [hpc] at hc
      exact h.keepWatching (by rw [hpc]; rfl) rfl ⟨hc.1, hc.2.2 rfl⟩
  | @sleepAgain c k hpc hdone =>
      have hc := h.caller c
      rw [hpc] at hc
      exact h.keepWatching (by rw [hpc]; rfl) rfl ⟨hc.1, hc.2.1⟩
  | @getValue c k value hpc hpromise =>
      have hc := h.caller c
      rw [hpc] at hc
      obtain ⟨⟨hcurrent, hlive, hhome⟩, -, hslot, hheld⟩ := hc
      apply h.release (by simp [hpc, CallerPc.Inside])
      · intro j hj
        obtain rfl : k = j := Option.some.inj (hcurrent.symm.trans hj)
        exact ⟨hcurrent, hlive⟩
      · exact fun j => (h.context j).unstopped
      · intro j hholds
        have howner := ((h.context j).owner c hholds).1
        obtain rfl : k = j := Option.some.inj (hhome.symm.trans howner)
        simp [State.Holds, hslot, hheld] at hholds
      · exact hpromise
  | @getError c k error hpc hpromise =>
      have hc := h.caller c
      rw [hpc] at hc
      have hinside : (s.callers c).Inside := by simp [hpc, CallerPc.Inside]
      have hretired := h.retire (fun d hd => h.alone hinside hd) hc.1.1 s.closed
        (show OutcomeInv timeout s c (.raised error) from hpromise) (.inr hc.1.2.2)
      rw [← (h.lock c).mp hinside] at hretired
      exact hretired
  | @giveUp c k hpc =>
      have hc := h.caller c
      rw [hpc] at hc
      have hinside : (s.callers c).Inside := by simp [hpc, CallerPc.Inside]
      have hretired := h.retire (fun d hd => h.alone hinside hd) hc.1.1 s.closed
        (show OutcomeInv timeout s c .ioTimeout from hc.2) (.inr hc.1.2.2)
      rw [← (h.lock c).mp hinside] at hretired
      exact hretired
  | @detach s₁ c k outcome hpc hnotify =>
      have hpc' : s₁.callers c = .stopping k outcome := by
        rw [hnotify.caller_eq (by simp [hpc]), hpc]
      have h₁ := h.notifyOne hnotify
      have hc := h₁.caller c
      rw [hpc'] at hc
      obtain ⟨hcurrent, hstopped, houtcome⟩ := hc
      -- the current context is the only one that could be unmarked, and it is marked
      have hall (j : Nat) (hj : j < s₁.numContexts) : (s₁.contexts j).stopped = true := by
        by_contra hlive
        have hcurrent' := (h₁.context j).unstopped hj (by simpa using hlive)
        obtain rfl : k = j := Option.some.inj (hcurrent.symm.trans hcurrent')
        exact hlive hstopped
      apply h₁.release (by simp [hpc', CallerPc.Inside])
      · simp
      · intro j hj hlive
        simp [hall j hj] at hlive
      · intro j hholds
        apply hall
        by_contra hfresh
        obtain ⟨hcontext, hworker⟩ := (h₁.context j).fresh (Nat.not_lt.mp hfresh)
        simp [State.Holds, hcontext, hworker, WorkerPc.held] at hholds
      · exact houtcome
  | @destroy c k hpc hopen halone hcontext =>
      have hc : s.Unsubmitted c := by simpa [hpc, CallerInv] using h.caller c
      apply h.retire
      · intro d _
        rcases halone d with hd | ⟨outcome, hd⟩ <;> simp [hd, CallerPc.Inside]
      · exact hcontext
      · exact hc
      · exact .inl hc.1
  | @destroyEmpty c hpc hopen halone hcontext =>
      have hc : s.Unsubmitted c := by simpa [hpc, CallerInv] using h.caller c
      apply h.close.setCaller
      · simp [hpc, CallerPc.Inside]
      · simp [hpc, CallerPc.watched]
      · simp [hpc]
      · exact hc
  | @workerSleep k hk hpc htask hstopped =>
      exact h.setWorker_looping hk (by simp [hpc, WorkerPc.Looping]) trivial
        fun hne => absurd htask hne
  | @workerWake k hpc => exact h.notifyOne (.worker hpc)
  | take hk hpc htask hstopped => exact h.take hk htask
  | exit hk hpc hstopped => exact h.exit hk hpc hstopped
  | complete hpc hresult => exact h.complete hpc hresult
  | markDone hpc => exact h.markDone hpc
  | @notify s₁ k hpc hnotify =>
      have hpc' : s₁.workers k = .notifying := by
        cases hnotify with
        | none | caller => exact hpc
        | worker hworker => simp [hpc] at hworker
      have h₁ := h.notifyOne hnotify
      have hk : k < s₁.numContexts := by
        by_contra hfresh
        have hready := ((h₁.context k).fresh (Nat.not_lt.mp hfresh)).2
        simp [hpc'] at hready
      exact h₁.setWorker_looping hk (by simp [hpc', WorkerPc.Looping]) trivial fun _ => .inl rfl

theorem inv_of_reachable (h : (system timeout tasks).Reachable s) : Inv timeout tasks s := by
  apply h.invariant
  · rintro _ rfl
    exact inv_init
  · intro s a s' hinv hstep
    exact hinv.step hstep

/-! ### Retired workers -/

theorem Inv.not_asleep_of_stopped (h : Inv timeout tasks s)
    (hstopped : (s.contexts k).stopped = true) (c : Nat) :
    s.callers c ≠ .asleep k := by
  intro hpc
  have hlive := (h.owns_of_watched (c := c) (k := k) (by rw [hpc]; rfl)).2.1
  simp [hstopped] at hlive

theorem Inv.retired_step (h : Inv timeout tasks s) (hstopped : (s.contexts k).stopped = true)
    (hstep : Step timeout tasks s (.worker k) s') : OnlyWorker k s s' := by
  cases hstep with
  | workerSleep hk hpc htask hlive => simp [hstopped] at hlive
  | workerWake hpc => exact onlyWorker_setWorker s k .ready
  | take hk hpc htask hlive => simp [hstopped] at hlive
  | exit hk hpc _ => exact onlyWorker_exit h
  | complete hpc hresult => exact onlyWorker_complete h hpc _
  | markDone hpc => exact onlyWorker_markDone s k
  | notify hpc hnotify =>
      cases hnotify with
      | none => exact onlyWorker_setWorker s k .ready
      | worker hworker => simp [hpc] at hworker
      | caller hcaller => exact absurd hcaller (h.not_asleep_of_stopped hstopped _)

/-- A task is still in its stopped context, or was destroyed there. -/
def Abandoned (s : State α ε) (k t : Nat) : Prop :=
  (s.contexts k).stopped = true ∧ ((s.contexts k).task = some t ∨ s.dropped t = true)

theorem Abandoned.of_same (h : Abandoned s k t) (hcontext : s'.contexts k = s.contexts k)
    (hdropped : s'.dropped = s.dropped) :
    Abandoned s' k t := by
  unfold Abandoned
  rw [hcontext, hdropped]
  exact h

theorem Abandoned.markStopped (h : Abandoned s k t) (j : Nat) :
    Abandoned (s.markStopped j) k t := by
  obtain ⟨hstopped, htask⟩ := h
  by_cases hj : k = j
  · subst hj
    exact ⟨by simp [State.markStopped, setContext],
      by simpa [State.markStopped, setContext] using htask⟩
  · exact ⟨by simpa [State.markStopped, setContext, hj] using hstopped,
      by simpa [State.markStopped, setContext, hj] using htask⟩

theorem Abandoned.step (h : Abandoned s k t) (hinv : Inv timeout tasks s) {a : Action}
    (hstep : Step timeout tasks s a s') : Abandoned s' k t := by
  have hstopped := h.1
  cases hstep with
  | invoke | acquire | create | startFails | wake | expire | seeDone | seeExpired | sleepAgain | getValue | destroyEmpty
  | workerSleep | workerWake | complete => exact h.of_same rfl rfl
  | @submit s₁ c j hpc hcontext hnotify =>
      have hne : k ≠ j := by
        rintro rfl
        simp [(hinv.free_of_locked hpc hcontext).1] at hstopped
      apply h.of_same
      · simp [State.setCaller, hnotify.same.2.2.2.1, State.submit, setContext, hne]
      · exact hnotify.same.2.2.2.2.2.2.2
  | getError | giveUp | destroy => exact (h.markStopped _).of_same rfl rfl
  | detach hpc hnotify =>
      obtain ⟨-, -, -, hcontexts, -, -, -, hdropped⟩ := hnotify.same
      exact h.of_same (congrFun hcontexts k) hdropped
  | @take j d hk hpc htask hlive =>
      have hne : k ≠ j := by
        rintro rfl
        simp [hstopped] at hlive
      exact h.of_same (by simp [State.take, setWorker, setContext, hne]) rfl
  | @exit j hk hpc _ =>
      obtain ⟨-, htask⟩ := h
      by_cases hj : k = j
      · subst hj
        refine ⟨by simpa [State.exit, setWorker, setContext] using hstopped, .inr ?_⟩
        rcases htask with htask | hdropped
        · simp [State.exit, htask]
        · simp [State.exit, hdropped]
      · refine ⟨by simpa [State.exit, setWorker, setContext, hj] using hstopped, ?_⟩
        exact htask.imp (fun ht => by simpa [State.exit, setWorker, setContext, hj] using ht)
          fun hd => by simp [State.exit, hd]
  | @markDone j d hpc =>
      obtain ⟨-, htask⟩ := h
      by_cases hj : k = j
      · subst hj
        exact ⟨by simpa [setWorker, setContext] using hstopped,
          by simpa [setWorker, setContext] using htask⟩
      · exact ⟨by simpa [setWorker, setContext, hj] using hstopped,
          by simpa [setWorker, setContext, hj] using htask⟩
  | notify hpc hnotify =>
      obtain ⟨-, -, -, hcontexts, -, -, -, hdropped⟩ := hnotify.same
      exact h.of_same (congrFun hcontexts k) hdropped

theorem Abandoned.executions_eq (h : Abandoned s k t) (hinv : Inv timeout tasks s) :
    s.executions t = 0 := by
  rcases h.2 with htask | hdropped
  · exact ((hinv.context k).waiting t htask).2.1
  · exact ((hinv.task t).dropped hdropped).1

/-- Steps of one worker. -/
def WorkerRun (timeout : Nat → Int) (tasks : Nat → Except ε α → Prop) (k : Nat) :
    State α ε → State α ε → Prop :=
  Relation.ReflTransGen fun s s' => Step timeout tasks s (.worker k) s'

theorem exit_drops (hinv : Inv timeout tasks s) (htask : (s.contexts k).task = some t)
    (hstopped : (s.contexts k).stopped = true) (hpc : s.workers k = .ready) :
    Step timeout tasks s (.worker k) (s.exit k) ∧ (s.exit k).dropped t = true := by
  have hk : k < s.numContexts := by
    by_contra hfresh
    have hcontext := ((hinv.context k).fresh (Nat.not_lt.mp hfresh)).1
    simp [hcontext] at htask
  exact ⟨.exit hk hpc hstopped, by simp [State.exit, htask]⟩

/-- The worker is not blocked before it destroys an abandoned task. -/
theorem Abandoned.destroyed (h : Abandoned s k t) (hinv : Inv timeout tasks s) :
    ∃ s', WorkerRun timeout tasks k s s' ∧ s'.dropped t = true := by
  obtain ⟨hstopped, htask | hdropped⟩ := h
  · rcases ((hinv.context k).waiting t htask).1 with hpc | hpc
    · obtain ⟨hexit, hdrops⟩ := exit_drops hinv htask hstopped hpc
      exact ⟨_, Relation.ReflTransGen.single hexit, hdrops⟩
    · have hnotify : Step timeout tasks s (.worker k) (s.setWorker k .ready) :=
        .notify hpc (.none (by simp [hpc]) (hinv.not_asleep_of_stopped hstopped))
      obtain ⟨hexit, hdrops⟩ := exit_drops (hinv.step hnotify) htask hstopped (by simp [setWorker])
      exact ⟨_, (Relation.ReflTransGen.single hnotify).tail hexit, hdrops⟩
  · exact ⟨s, Relation.ReflTransGen.refl, hdropped⟩

theorem Abandoned.run (h : Abandoned s k t) (hs : (system timeout tasks).Reachable s)
    (hrun : (system timeout tasks).Run s s') : Abandoned s' k t := by
  apply hrun.invariant_of_reachable (J := Inv timeout tasks) (I := fun s => Abandoned s k t) _ _ _ hs h
  · rintro _ rfl
    exact inv_init
  · exact fun s a s' hinv hstep => hinv.step hstep
  · exact fun s a s' hinv hab hstep => hab.step hinv hstep

/-! ### Isolation -/

/-- In every reachable state: a task was invoked once at most; a call that returned or raised did so
with the result of its own task, and one that is about to read its result finds it; a task that
`stop` found in its context is never invoked, and its worker goes on to destroy it; a step of a
retired worker changes only its own context and the tasks submitted to it, whose calls are over; and
a context that is not stopped is the current one. -/
theorem tasks_isolated (hs : (system timeout tasks).Reachable s) :
    (∀ t, s.executions t ≤ 1) ∧
    (∀ c value, s.callers c = .ended (.returned value) →
      tasks c (.ok value) ∧ s.promises c = some (.ok value) ∧ s.executions c = 1) ∧
    (∀ c error, s.callers c = .ended (.raised error) →
      tasks c (.error error) ∧ s.promises c = some (.error error) ∧ s.executions c = 1) ∧
    (∀ c k, s.callers c = .got k → s.promises c ≠ none) ∧
    (∀ k t s', (s.contexts k).stopped = true → (s.contexts k).task = some t →
      (system timeout tasks).Run s s' →
      s'.executions t = 0 ∧ ∃ s'', WorkerRun timeout tasks k s' s'' ∧ s''.dropped t = true) ∧
    (∀ k s', (s.contexts k).stopped = true → Step timeout tasks s (.worker k) s' →
      OnlyWorker k s s' ∧ ∀ c, s.home c = some k →
        (∃ j outcome, s.callers c = .stopping j outcome) ∨
        ∃ outcome, s.callers c = .ended outcome) ∧
    ∀ k, k < s.numContexts → (s.contexts k).stopped = false → s.current = some k := by
  have hinv := inv_of_reachable hs
  refine ⟨fun t => (hinv.task t).once, ?_, ?_, ?_, ?_, ?_, fun k => (hinv.context k).unstopped⟩
  · intro c value hpc
    have hc := hinv.caller c
    rw [hpc] at hc
    obtain ⟨htask, honce⟩ := (hinv.task c).promised _ hc
    exact ⟨htask, hc, honce⟩
  · intro c error hpc
    have hc := hinv.caller c
    rw [hpc] at hc
    obtain ⟨htask, honce⟩ := (hinv.task c).promised _ hc
    exact ⟨htask, hc, honce⟩
  · intro c k hpc
    have hc := hinv.caller c
    rw [hpc] at hc
    exact hc.2.1
  · intro k t s' hstopped htask hrun
    have habandoned : Abandoned s' k t := Abandoned.run ⟨hstopped, .inl htask⟩ hs hrun
    have hinv' := inv_of_reachable (hs.run hrun)
    exact ⟨habandoned.executions_eq hinv', habandoned.destroyed hinv'⟩
  · intro k s' hstopped hstep
    exact ⟨hinv.retired_step hstopped hstep, fun c hhome => hinv.over_of_stopped hhome hstopped⟩

end

/-- A call with a timeout of one millisecond gives up before its worker looks at the task. -/
theorem exists_reachable_untaken :
    ∃ s, (system (α := Nat) (ε := String) (fun _ => 1) fun _ _ => True).Reachable s ∧
      (s.contexts 0).stopped = true ∧ (s.contexts 0).task = some 0 := by
  have hinit : (system (α := Nat) (ε := String) (fun _ => 1) fun _ _ => True).Reachable {} :=
    ⟨_, rfl, .refl _⟩
  have hinvoked := hinit.tail (a := .caller 0) (.invoke rfl rfl)
  have hlocked := hinvoked.tail (a := .caller 0) (.acquire rfl rfl)
  have hcreated := hlocked.tail (a := .caller 0) (.create rfl rfl)
  have hsubmitted := hcreated.tail (a := .caller 0) (.submit rfl rfl (.none WorkerPc.noConfusion fun c => by
    by_cases hc : c = 0 <;> simp [State.submit, State.setContext, State.setCaller, hc]))
  have hexpired := hsubmitted.tail (a := .clock 0) (.expire (.inl rfl) Int.one_pos)
  have hseen := hexpired.tail (a := .caller 0) (.seeExpired rfl rfl)
  have hstopped := hseen.tail (a := .caller 0) (.giveUp rfl)
  exact ⟨_, hstopped, rfl, rfl⟩

theorem tasks_isolated_untaken :
    ∃ s, (system (α := Nat) (ε := String) (fun _ => 1) fun _ _ => True).Reachable s ∧
      (s.contexts 0).task = some 0 ∧ s.executions 0 = 0 ∧
      ∃ s', WorkerRun (fun _ => 1) (fun _ _ => True) 0 s s' ∧ s'.dropped 0 = true := by
  obtain ⟨s, hs, hstopped, htask⟩ := exists_reachable_untaken
  obtain ⟨-, -, -, -, huntaken, -⟩ := tasks_isolated hs
  obtain ⟨hnever, hdestroyed⟩ := huntaken 0 0 s hstopped htask (.refl s)
  exact ⟨s, hs, htask, hnever, hdestroyed⟩

end DeepJit.Executor
