import DeepJit.Utils.Command

/-!
# What a command leaves behind

The locals of `call_external_command` and the log of its effects agree after every system call. So
the function returns the output of a command that ended well, throws otherwise, closes both ends of
its pipe once and kills the child only if it gives up on it.
-/

namespace DeepJit.Command

section

variable {timeout : Int} {env : Environment} {round : Round} {l l' : Locals} {writeEnd : Bool}

/-- The variables say what the log says, nothing is closed twice and nothing is killed. The write
end is open until the child is spawned. -/
structure Traced (writeEnd : Bool) (l : Locals) : Prop where
  writeEnd_eq : l.writeEnd = writeEnd
  piped : .piped ∈ l.log
  started : writeEnd = false ↔ ∃ child, .spawned child ∈ l.log
  readOpen : l.log.count (.closed .read) = 0
  writeOpen : l.log.count (.closed .write) = if writeEnd then 0 else 1
  alive : ∀ child, .killed child ∉ l.log
  running : ∀ child, l.pid = some child ↔ .spawned child ∈ l.log ∧ ∀ status, .reaped status ∉ l.log
  reaped : ∀ status, .reaped status ∈ l.log →
    l.pid = none ∧ status = l.status ∧ ∃ child, .spawned child ∈ l.log
  ended : l.eof = true ↔ .ended ∈ l.log
  output : l.output = received l.log

/-- The loop goes on. -/
def Unfinished (l : Locals) : Prop := ¬ (l.eof = true ∧ l.pid = none)

/-- What can be thrown before the exit code is known. -/
def GivesUp (failure : Failure) (l : Locals) : Prop :=
  Unfinished l ∧ ∀ code output, failure ≠ .exitCode code output

theorem received_append (log log' : List Effect) :
    received (log ++ log') = received log ++ received log' :=
  List.flatMap_append

/-! ### What the system calls change -/

theorem traced_new {log : List Effect} (hpiped : .piped ∈ log)
    (hlog : ∀ effect ∈ log, effect = .piped ∨ ∃ text, effect = .printed text) :
    Traced true { log := log } := by
  have hnot : ∀ effect, effect ≠ .piped → (∀ text, effect ≠ .printed text) → effect ∉ log := by
    intro effect hpiped hprinted hmem
    obtain rfl | ⟨text, rfl⟩ := hlog effect hmem
    · exact hpiped rfl
    · exact hprinted text rfl
  have hreceived : received log = [] := by
    apply List.flatMap_eq_nil_iff.mpr
    intro effect hmem
    obtain rfl | ⟨text, rfl⟩ := hlog effect hmem <;> rfl
  exact
    { writeEnd_eq := rfl
      piped := hpiped
      started := by simp [hnot (.spawned _) (by simp) (by simp)]
      readOpen := List.count_eq_zero_of_not_mem (hnot _ (by simp) (by simp))
      writeOpen := List.count_eq_zero_of_not_mem (hnot _ (by simp) (by simp))
      alive := fun child => hnot _ (by simp) (by simp)
      running := fun child => by simp [hnot (.spawned child) (by simp) (by simp)]
      reaped := fun status hmem => absurd hmem (hnot _ (by simp) (by simp))
      ended := by simp [hnot .ended (by simp) (by simp)]
      output := hreceived.symm }

theorem Traced.spawn (h : Traced true l) (child : Nat) :
    Traced false
      { l with pid := some child, writeEnd := false, log := l.log ++ [.spawned child, .closed .write] } := by
  have hnone : ∀ other, .spawned other ∉ l.log := by
    intro other hmem
    exact absurd (h.started.mpr ⟨other, hmem⟩) (by simp)
  have hreaped : ∀ status, .reaped status ∉ l.log := by
    intro status hmem
    obtain ⟨-, -, other, hother⟩ := h.reaped status hmem
    exact hnone other hother
  have hwrite : l.log.count (.closed .write) = 0 := h.writeOpen
  exact
    { writeEnd_eq := rfl
      piped := by simp [h.piped]
      started := by simp
      readOpen := by simp [h.readOpen]
      writeOpen := by simp [hwrite]
      alive := fun other => by simp [h.alive]
      running := fun other => by simp [hnone, hreaped, eq_comm]
      reaped := fun status hmem => by simp [hreaped] at hmem
      ended := by simp [h.ended]
      output := by simp [h.output, received] }

theorem Traced.receive (h : Traced writeEnd l) (chunk : Bytes) :
    Traced writeEnd { l with output := l.output ++ chunk, log := l.log ++ [.received chunk] } where
  writeEnd_eq := h.writeEnd_eq
  piped := by simp [h.piped]
  started := by simp [h.started]
  readOpen := by simp [h.readOpen]
  writeOpen := by simp [h.writeOpen]
  alive child := by simp [h.alive]
  running child := by simp [h.running]
  reaped status hmem := by
    have hbefore : .reaped status ∈ l.log := by simpa using hmem
    simpa using h.reaped status hbefore
  ended := by simp [h.ended]
  output := by simp [h.output, received]

theorem Traced.atEnd (h : Traced writeEnd l) :
    Traced writeEnd { l with eof := true, log := l.log ++ [.ended] } where
  writeEnd_eq := h.writeEnd_eq
  piped := by simp [h.piped]
  started := by simp [h.started]
  readOpen := by simp [h.readOpen]
  writeOpen := by simp [h.writeOpen]
  alive child := by simp [h.alive]
  running child := by simp [h.running]
  reaped status hmem := by
    have hbefore : .reaped status ∈ l.log := by simpa using hmem
    simpa using h.reaped status hbefore
  ended := by simp
  output := by simp [h.output, received]

theorem Traced.reap (h : Traced writeEnd l) {child : Nat} (hpid : l.pid = some child) (status : WaitStatus) :
    Traced writeEnd { l with pid := none, status := status, log := l.log ++ [.reaped status] } := by
  obtain ⟨hspawned, hnone⟩ := (h.running child).mp hpid
  exact
    { writeEnd_eq := h.writeEnd_eq
      piped := by simp [h.piped]
      started := by simp [h.started]
      readOpen := by simp [h.readOpen]
      writeOpen := by simp [h.writeOpen]
      alive := fun other => by simp [h.alive]
      running := fun other => by
        simp only [reduceCtorEq, false_iff, not_and, not_forall, not_not]
        exact fun _ => ⟨status, by simp⟩
      reaped := fun other hmem => by
        have hother : other = status := by simpa [hnone] using hmem
        exact ⟨rfl, hother, child, by simp [hspawned]⟩
      ended := by simp [h.ended]
      output := by simp [h.output, received] }

/-! ### One turn -/

theorem pollOutput_spec {result : Except Failure Unit} (hpoll : pollOutput round l = (result, l')) :
    l' = l ∧ ∀ failure, result = .error failure → GivesUp failure l := by
  unfold pollOutput at hpoll
  by_cases hdone : l.eof = true ∧ l.pid = none
  · rw [if_pos hdone, Prod.mk.injEq] at hpoll
    obtain ⟨rfl, rfl⟩ := hpoll
    exact ⟨rfl, by simp⟩
  · rw [if_neg hdone] at hpoll
    split at hpoll
    · obtain ⟨rfl, rfl⟩ := Prod.mk.inj hpoll
      exact ⟨rfl, by simp⟩
    · obtain ⟨rfl, rfl⟩ := Prod.mk.inj hpoll
      exact ⟨rfl, by simp⟩
    · obtain ⟨rfl, rfl⟩ := Prod.mk.inj hpoll
      exact ⟨rfl, fun failure hfailure => ⟨hdone, by simp [← Except.error.inj hfailure]⟩⟩

theorem waitChild_spec {result : Except Failure Unit} (h : Traced writeEnd l)
    (hwait : waitChild round l = (result, l')) :
    Traced writeEnd l' ∧ ∀ failure, result = .error failure → GivesUp failure l' := by
  unfold waitChild at hwait
  cases hpid : l.pid with
  | none =>
      rw [hpid] at hwait
      obtain ⟨rfl, hfailed⟩ := pollOutput_spec hwait
      exact ⟨h, hfailed⟩
  | some child =>
      rw [hpid] at hwait
      dsimp only at hwait
      split at hwait
      · obtain ⟨rfl, hfailed⟩ := pollOutput_spec hwait
        exact ⟨h, hfailed⟩
      · obtain ⟨rfl, hfailed⟩ := pollOutput_spec hwait
        exact ⟨h, hfailed⟩
      · obtain ⟨rfl, hfailed⟩ := pollOutput_spec hwait
        exact ⟨h.reap hpid _, hfailed⟩
      · obtain ⟨rfl, rfl⟩ := Prod.mk.inj hwait
        refine ⟨h, fun failure hfailure => ⟨?_, by simp [← Except.error.inj hfailure]⟩⟩
        simp [Unfinished, hpid]

theorem turn_spec {deadline : Int} {result : Except Failure Unit} (h : Traced writeEnd l) (hgoes : Unfinished l)
    (hturn : turn deadline round l = (result, l')) :
    Traced writeEnd l' ∧ ∀ failure, result = .error failure → GivesUp failure l' := by
  unfold turn at hturn
  split at hturn
  · obtain ⟨rfl, rfl⟩ := Prod.mk.inj hturn
    exact ⟨h, fun failure hfailure => ⟨hgoes, by simp [← Except.error.inj hfailure]⟩⟩
  · split at hturn
    · exact waitChild_spec h hturn
    · split at hturn
      · exact waitChild_spec h.atEnd hturn
      · obtain ⟨rfl, rfl⟩ := Prod.mk.inj hturn
        exact ⟨h.receive _, by simp⟩
      · exact waitChild_spec h hturn
      · exact waitChild_spec h hturn
      · obtain ⟨rfl, rfl⟩ := Prod.mk.inj hturn
        exact ⟨h, fun failure hfailure => ⟨hgoes, by simp [← Except.error.inj hfailure]⟩⟩

/-- The loop ends normally when the output has ended and the child was reaped. -/
theorem watch_spec {deadline : Int} {rounds : List Round} {result : Option (Except Failure Unit)}
    (h : Traced writeEnd l) (hwatch : watch deadline rounds l = (result, l')) :
    Traced writeEnd l' ∧ (result = some (.ok ()) → l'.eof = true ∧ l'.pid = none) ∧
      ∀ failure, result = some (.error failure) → GivesUp failure l' := by
  induction rounds generalizing l with
  | nil =>
      rw [watch] at hwatch
      by_cases hdone : l.eof = true ∧ l.pid = none
      · rw [if_pos hdone, Prod.mk.injEq] at hwatch
        obtain ⟨rfl, rfl⟩ := hwatch
        exact ⟨h, fun _ => hdone, by simp⟩
      · rw [if_neg hdone, Prod.mk.injEq] at hwatch
        obtain ⟨rfl, rfl⟩ := hwatch
        exact ⟨h, by simp, by simp⟩
  | cons round rounds ih =>
      rw [watch] at hwatch
      by_cases hdone : l.eof = true ∧ l.pid = none
      · rw [if_pos hdone, Prod.mk.injEq] at hwatch
        obtain ⟨rfl, rfl⟩ := hwatch
        exact ⟨h, fun _ => hdone, by simp⟩
      · rw [if_neg hdone] at hwatch
        cases hturn : turn deadline round l with
        | mk step next =>
            obtain ⟨hnext, hfailed⟩ := turn_spec h hdone hturn
            rw [hturn] at hwatch
            cases step with
            | error failure =>
                simp only [Prod.mk.injEq] at hwatch
                obtain ⟨rfl, rfl⟩ := hwatch
                exact ⟨hnext, by simp, by simpa using hfailed failure rfl⟩
            | ok _ => exact ih hnext hwatch

/-! ### The whole function -/

theorem start_spec {result : Except Failure Unit} (h : Traced true l)
    (hstart : start env l = (result, l')) :
    (result = .ok () → Traced false l') ∧
      ∀ failure, result = .error failure → l' = l ∧ ∀ code output, failure ≠ .exitCode code output := by
  unfold start at hstart
  split at hstart
  · obtain ⟨rfl, rfl⟩ := Prod.mk.inj hstart
    exact ⟨by simp, fun failure hfailure => ⟨rfl, by simp [← Except.error.inj hfailure]⟩⟩
  · split at hstart
    · obtain ⟨rfl, rfl⟩ := Prod.mk.inj hstart
      exact ⟨by simp, fun failure hfailure => ⟨rfl, by simp [← Except.error.inj hfailure]⟩⟩
    · split at hstart
      · obtain ⟨rfl, rfl⟩ := Prod.mk.inj hstart
        exact ⟨by simp, fun failure hfailure => ⟨rfl, by simp [← Except.error.inj hfailure]⟩⟩
      · obtain ⟨rfl, rfl⟩ := Prod.mk.inj hstart
        exact ⟨fun _ => h.spawn env.child, by simp⟩

/-- The child was reaped with status 0 after the output had ended. -/
def Succeeded (log : List Effect) : Prop := .ended ∈ log ∧ .reaped (.exited 0) ∈ log

theorem Traced.not_succeeded (h : Traced writeEnd l) (hgoes : Unfinished l) : ¬ Succeeded l.log := by
  intro ⟨hended, hreaped⟩
  exact hgoes ⟨h.ended.mpr hended, (h.reaped _ hreaped).1⟩

theorem Traced.exists_reaped (h : Traced false l) (hpid : l.pid = none) : .reaped l.status ∈ l.log := by
  obtain ⟨child, hspawned⟩ := h.started.mp rfl
  by_contra hnone
  have hrunning : l.pid = some child := by
    refine (h.running child).mpr ⟨hspawned, ?_⟩
    intro status hstatus
    exact hnone ((h.reaped status hstatus).2.1 ▸ hstatus)
  simp [hpid] at hrunning

theorem exitCode_eq_zero {status : WaitStatus} : status.exitCode = 0 ↔ status = .exited 0 := by
  cases status with
  | exited code =>
      rw [WaitStatus.exitCode, WaitStatus.exited.injEq, ← UInt8.toNat_inj]
      rfl
  | signaled signal => simp [WaitStatus.exitCode]

/-- The two ways out of the `try` block. -/
theorem tryBlock_spec {result : Option (Except Failure Bytes)} (h : Traced true l)
    (hnew : .ended ∉ l.log) (htry : tryBlock timeout env l = (result, l')) :
    (∀ failure, result = some (.error failure) →
      (∃ writeEnd, Traced writeEnd l') ∧ ¬ Succeeded l'.log ∧ ∀ output, failure ≠ .exitCode 0 output) ∧
    ∀ output, result = some (.ok output) → ∃ last, Traced false last ∧ last.pid = none ∧
      Succeeded last.log ∧ output = last.output ∧ l'.log = last.log ++ [.closed .read] := by
  unfold tryBlock at htry
  cases hstart : start env l with
  | mk started next =>
      obtain ⟨hok, herror⟩ := start_spec h hstart
      rw [hstart] at htry
      cases started with
      | error failure =>
          simp only [Prod.mk.injEq] at htry
          obtain ⟨rfl, rfl⟩ := htry
          obtain ⟨rfl, hcode⟩ := herror failure rfl
          refine ⟨?_, by simp⟩
          intro other hother
          simp only [Option.some.injEq, Except.error.injEq] at hother
          exact ⟨⟨true, h⟩, fun hsucceeded => hnew hsucceeded.1, hother ▸ hcode 0⟩
      | ok _ =>
          dsimp only at htry
          cases hwatch : watch (deadline timeout env.now) env.rounds next with
          | mk watched last =>
              obtain ⟨hlast, hended, hfailed⟩ := watch_spec (hok rfl) hwatch
              rw [hwatch] at htry
              match watched with
              | none =>
                  obtain ⟨rfl, rfl⟩ := Prod.mk.inj htry
                  exact ⟨by simp, by simp⟩
              | some (.error failure) =>
                  obtain ⟨rfl, rfl⟩ := Prod.mk.inj htry
                  obtain ⟨hgoes, hcode⟩ := hfailed failure rfl
                  refine ⟨?_, by simp⟩
                  intro other hother
                  simp only [Option.some.injEq, Except.error.injEq] at hother
                  exact ⟨⟨false, hlast⟩, hlast.not_succeeded hgoes, hother ▸ hcode 0⟩
              | some (.ok _) =>
                  obtain ⟨heof, hnone⟩ := hended rfl
                  have hreaped := hlast.exists_reaped hnone
                  dsimp only at htry
                  by_cases hcode : last.status.exitCode = 0
                  · rw [if_neg (not_not.mpr hcode), Prod.mk.injEq] at htry
                    obtain ⟨rfl, rfl⟩ := htry
                    refine ⟨by simp, ?_⟩
                    intro output houtput
                    simp only [Option.some.injEq, Except.ok.injEq] at houtput
                    rw [exitCode_eq_zero.mp hcode] at hreaped
                    exact ⟨last, hlast, hnone, ⟨hlast.ended.mp heof, hreaped⟩, houtput.symm, rfl⟩
                  · rw [if_pos hcode, Prod.mk.injEq] at htry
                    obtain ⟨rfl, rfl⟩ := htry
                    refine ⟨?_, by simp⟩
                    intro other hother
                    simp only [Option.some.injEq, Except.error.injEq] at hother
                    refine ⟨⟨false, hlast⟩, ?_, ?_⟩
                    · intro ⟨_, hzero⟩
                      exact hcode (exitCode_eq_zero.mpr (hlast.reaped _ hzero).2.1.symm)
                    · intro output hzero
                      rw [← hother, Failure.exitCode.injEq] at hzero
                      exact hcode hzero.1

/-- What holds when the function exits: it returns exactly if the output ended and the child was
reaped with status 0, and then what it read; an exit code that it reports is not 0; both ends of the
pipe were closed once if there was a pipe; and the child was killed exactly if it throws while a
spawned child was not reaped. -/
structure Faithful (result : Except Failure Bytes) (log : List Effect) : Prop where
  returns : ∀ output, result = .ok output ↔ Succeeded log ∧ output = received log
  reports : ∀ output, result ≠ .error (.exitCode 0 output)
  closes : ∀ pipeEnd, log.count (.closed pipeEnd) = if .piped ∈ log then 1 else 0
  kills : ∀ child, .killed child ∈ log ↔
    (∃ failure, result = .error failure) ∧ .spawned child ∈ log ∧ ∀ status, .reaped status ∉ log
  killsOnce : ∀ child, log.count (.killed child) ≤ 1

theorem faithful_of_returned {last : Locals} (h : Traced false last) (hsucceeded : Succeeded last.log) :
    Faithful (.ok last.output) (last.log ++ [.closed .read]) where
  returns output := by
    rw [Except.ok.injEq, received_append, h.output]
    simp [Succeeded, hsucceeded.1, hsucceeded.2, received, eq_comm]
  reports output := by simp
  closes pipeEnd := by
    cases pipeEnd with
    | read => simp [h.readOpen, h.piped]
    | write => simp [h.writeOpen, h.piped]
  kills child := by simp [h.alive]
  killsOnce child := by simp [List.count_eq_zero_of_not_mem (h.alive child)]

theorem mem_cleanup {effect : Effect} :
    effect ∈ l.cleanup ↔ effect = .closed .read ∨ (effect = .closed .write ∧ l.writeEnd = true) ∨
      ∃ child, effect = .killed child ∧ l.pid = some child := by
  rw [Locals.cleanup]
  cases l.writeEnd <;> cases l.pid <;> simp

theorem count_closed_cleanup (pipeEnd : PipeEnd) :
    l.cleanup.count (.closed pipeEnd) = if pipeEnd = .write ∧ l.writeEnd = false then 0 else 1 := by
  rw [Locals.cleanup]
  cases l.writeEnd <;> cases l.pid <;> cases pipeEnd <;> simp

theorem count_killed_cleanup (child : Nat) : l.cleanup.count (.killed child) ≤ 1 := by
  rw [Locals.cleanup]
  cases l.pid with
  | none => cases l.writeEnd <;> simp
  | some other => by_cases hchild : other = child <;> cases l.writeEnd <;> simp [hchild]

theorem faithful_of_thrown {failure : Failure} (h : Traced writeEnd l) (hfailed : ¬ Succeeded l.log)
    (hcode : ∀ output, failure ≠ .exitCode 0 output) :
    Faithful (.error failure) (l.log ++ l.cleanup) where
  returns output := by
    have hnot : ¬ Succeeded (l.log ++ l.cleanup) := by
      intro ⟨hended, hreaped⟩
      exact hfailed ⟨by simpa [mem_cleanup] using hended, by simpa [mem_cleanup] using hreaped⟩
    simp [hnot]
  reports output heq := hcode output (Except.error.inj heq)
  closes pipeEnd := by
    rw [if_pos (List.mem_append_left _ h.piped), List.count_append, count_closed_cleanup, h.writeEnd_eq]
    cases pipeEnd with
    | read => simp [h.readOpen]
    | write =>
        rw [h.writeOpen]
        cases writeEnd <;> simp
  kills child := by
    have hrunning := h.running child
    simpa [mem_cleanup, h.alive child] using hrunning
  killsOnce child := by
    rw [List.count_append, List.count_eq_zero_of_not_mem (h.alive child), Nat.zero_add]
    exact count_killed_cleanup child

/-- Before there is a pipe nothing was done that has to be undone. -/
theorem faithful_of_unpiped {failure : Failure} {log : List Effect}
    (hlog : ∀ effect ∈ log, ∃ text, effect = .printed text)
    (hcode : ∀ output, failure ≠ .exitCode 0 output) : Faithful (.error failure) log := by
  have hnot : ∀ effect, (∀ text, effect ≠ .printed text) → effect ∉ log := by
    intro effect hprinted hmem
    obtain ⟨text, htext⟩ := hlog effect hmem
    exact hprinted text htext
  exact
    { returns := fun output => by simp [Succeeded, hnot .ended (by simp)]
      reports := fun output heq => hcode output (Except.error.inj heq)
      closes := fun pipeEnd => by
        rw [if_neg (hnot _ (by simp)), List.count_eq_zero_of_not_mem (hnot _ (by simp))]
      kills := fun child => by simp [hnot (.killed child) (by simp), hnot (.spawned child) (by simp)]
      killsOnce := fun child => by
        rw [List.count_eq_zero_of_not_mem (hnot _ (by simp))]
        exact Nat.zero_le 1 }

theorem callExternalCommand_spec {command : Bytes} {printCommand : Bool} {result : Except Failure Bytes}
    {log : List Effect} (h : callExternalCommand command printCommand timeout env = (some result, log)) :
    Faithful result log := by
  unfold callExternalCommand at h
  split at h
  · obtain ⟨hresult, rfl⟩ := Prod.mk.inj h
    rw [← Option.some.inj hresult]
    exact faithful_of_unpiped (by simp) (by simp)
  · split at h
    · obtain ⟨hresult, rfl⟩ := Prod.mk.inj h
      rw [← Option.some.inj hresult]
      exact faithful_of_unpiped (by simp) (by simp)
    · dsimp only at h
      generalize hprinted : (if printCommand then
        [Effect.printed (bytes "Running command: " ++ cString command ++ bytes "\n")] else []) = printed at h
      have hshape : ∀ effect ∈ printed, ∃ text, effect = .printed text := by
        intro effect hmem
        rw [← hprinted] at hmem
        split at hmem
        · exact ⟨_, List.mem_singleton.mp hmem⟩
        · exact absurd hmem List.not_mem_nil
      split at h
      · obtain ⟨hresult, rfl⟩ := Prod.mk.inj h
        rw [← Option.some.inj hresult]
        exact faithful_of_unpiped hshape (by simp)
      · have hnew : Traced true { log := printed ++ [.piped] } := by
          apply traced_new (by simp)
          intro effect hmem
          obtain hmem | hmem := List.mem_append.mp hmem
          · exact .inr (hshape effect hmem)
          · exact .inl (List.mem_singleton.mp hmem)
        have hnone : Effect.ended ∉ printed ++ [.piped] := by
          intro hmem
          obtain ⟨text, htext⟩ := hshape .ended (by simpa using hmem)
          cases htext
        cases htry : tryBlock timeout env { log := printed ++ [.piped] } with
        | mk outcome last =>
            obtain ⟨hthrown, hreturned⟩ := tryBlock_spec hnew hnone htry
            rw [htry] at h
            match outcome with
            | none => simp at h
            | some (.error failure) =>
                obtain ⟨hresult, rfl⟩ := Prod.mk.inj h
                obtain ⟨⟨writeEnd, htraced⟩, hfailed, hcode⟩ := hthrown failure rfl
                rw [← Option.some.inj hresult]
                exact faithful_of_thrown htraced hfailed hcode
            | some (.ok output) =>
                obtain ⟨hresult, rfl⟩ := Prod.mk.inj h
                obtain ⟨before, htraced, -, hsucceeded, rfl, hlog⟩ := hreturned output rfl
                rw [← Option.some.inj hresult, hlog]
                exact faithful_of_returned htraced hsucceeded

/-- `call_external_command` reports faithfully and leaks nothing, whatever its environment does. -/
theorem callExternalCommand_faithful (command : Bytes) (printCommand : Bool) (timeout : Int)
    (env : Environment) (result : Except Failure Bytes) (log : List Effect)
    (h : callExternalCommand command printCommand timeout env = (some result, log)) :
    Faithful result log :=
  callExternalCommand_spec h

/-- A command that prints one byte and exits while its output is still open. -/
def Environment.sample : Environment where
  pipe := true
  nonblocking := true
  fileActionsInit := true
  adddup2Stdout := 0
  adddup2Stderr := 0
  addcloseRead := 0
  addcloseWrite := 0
  spawn := 0
  child := 7
  now := 0
  rounds :=
    [{ now := 1, read := .error .eagain, wait := .ok none, poll := .ok () },
      { now := 2, read := .ok [100], wait := .error .eintr, poll := .error .eintr },
      { now := 3, read := .error .eintr, wait := .ok (some (.exited 0)), poll := .ok () },
      { now := 4, read := .ok [], wait := .ok none, poll := .ok () }]

theorem callExternalCommand_faithful_sample :
    callExternalCommand (bytes "printf d") false 0 .sample =
        (some (.ok [100]), [.piped, .spawned 7, .closed .write, .received [100], .reaped (.exited 0),
          .ended, .closed .read]) ∧
      Faithful (.ok [100]) [.piped, .spawned 7, .closed .write, .received [100], .reaped (.exited 0),
        .ended, .closed .read] :=
  ⟨rfl, callExternalCommand_faithful (bytes "printf d") false 0 .sample _ _ rfl⟩

/-! ### Commands of requests -/

/-- What a request is told about a command. -/
def outcome (command : Bytes) (site : Site) : Except Failure Bytes → CommandOutcome
  | .ok output => .exited 0 output site
  | .error (.exitCode code output) => .exited code output site
  | .error (.timedOut output) => .expired output site
  | .error failure => .broken (failure.raise command 300000 site).what

/-- The commands of requests, which run with the default timeout of five minutes, are runs of this
function. -/
theorem callExternalCommand_outcome {command : Bytes} {printCommand : Bool} {result : Except Failure Bytes}
    {log : List Effect} (h : callExternalCommand command printCommand 300000 env = (some result, log))
    (site : Site) :
    DeepJit.callExternalCommand command (outcome command site result) =
      result.mapError (Failure.raise command 300000 site) := by
  have hreports := (callExternalCommand_spec h).reports
  cases result with
  | ok output => rfl
  | error failure =>
      cases failure with
      | exitCode code output =>
          have hcode : code ≠ 0 := fun hzero => hreports output (by rw [hzero])
          simp only [outcome, DeepJit.callExternalCommand, if_neg hcode]
          rfl
      | _ => rfl

end

end DeepJit.Command
