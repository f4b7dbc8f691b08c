import DeepJit.Backend.Ascend.BootstrapHost

/-!
# Modules on the device

The link between the two sides: every kernel that holds a module, and every request in a queue that
names one, names a live module of its own kernel, and nothing of a kernel is queued behind its
unload.
-/

namespace DeepJit.Ascend.Aicpu

namespace State

def NoUnload (s : State) (k : Nat) : Prop := ∀ b b' a, .unload b' k a ∉ s.queues (.loader b)

/-- A request in the queue of the loader stream of a bootstrap. -/
def Pending (s : State) (b : Nat) : Request → Prop
  | .load b' k => b' = b ∧ k < s.numKernels
  | .invoke .. => False
  | .unload b' k a => b' = b ∧ k < s.numKernels ∧ holder s.deviceLog a = some k
  | .removeBootstrap b' => b' = b

/-- The result of a load that succeeded is the live module of its kernel. -/
def Answered (s : State) (p : Purpose) (result : LoaderResult) : Prop :=
  ∀ k, p = .load k → result.status = 0 → holder s.deviceLog result.module = some k

/-- What the host relies on of the device at each point. -/
def DeviceAt (s : State) : Prop :=
  match s.pc with
  | .executing .check _ (.unload _) => ∀ stream, s.queues stream = []
  | .executing .synchronize b p =>
      s.queues (.loader b) = [s.request b p] ∨ (s.queues (.loader b) = [] ∧ s.Answered p (s.results b))
  | .executing .copy b p => s.Answered p (s.results b)
  | .concluding _ p (some result) => s.Answered p result
  | _ => True

/-- The result buffer of the bootstrap is as the host expects it. -/
def Calm (s : State) (b : Nat) : Prop :=
  (s.bootstraps b).loaderHealthy = true ∨ ∃ p, s.pc = .executing .copy b p

end State

structure DeviceInv (s : State) : Prop where
  user : ∀ n r, r ∈ s.queues (.user n) →
    ∃ b k a, r = .invoke b k a ∧ k < s.numKernels ∧ holder s.deviceLog a = some k ∧ s.NoUnload k
  loader : ∀ b r, r ∈ s.queues (.loader b) → s.Pending b r
  one : ∀ b, (s.queues (.loader b)).length ≤ 1
  calm : ∀ b, s.Calm b → s.queues (.loader b) = []
  once : ∀ b b' k c c' a a', .unload c k a ∈ s.queues (.loader b) → .unload c' k a' ∈ s.queues (.loader b') → b = b'
  live : ∀ k b a, s.kernels k = .loaded b a → s.pc.unloading ≠ some k →
    holder s.deviceLog a = some k ∧ s.NoUnload k
  fresh : ∀ k, s.pc.loading = some k → s.NoUnload k
  at_ : s.DeviceAt
  sound : Sound s.deviceLog

section

variable {s t : State} {k b : Nat} {p : Purpose}

theorem DeviceInv.initial : DeviceInv {} where
  user := by simp
  loader := by simp
  one := by simp
  calm := by simp
  once := by simp
  live := by
    intro k b a hloaded
    have hhandle := congrArg (fun kernel => kernel.kernelHandle) hloaded
    simp [HostKernel.loaded] at hhandle
  fresh := by simp [State.NoUnload]
  at_ := trivial
  sound := trivial

/-! ### Steps of the device -/

/-- What every step of the device leaves as it is. -/
structure Frame (s t : State) : Prop where
  kernels : t.kernels = s.kernels
  numKernels : t.numKernels = s.numKernels
  bootstraps : t.bootstraps = s.bootstraps
  numBootstraps : t.numBootstraps = s.numBootstraps
  pc : t.pc = s.pc
  hostLog : t.hostLog = s.hostLog
  suffix : ∀ stream, t.queues stream <:+ s.queues stream

/-- A queue without its first request. -/
theorem suffix_update {stream : Stream} {r : Request} {rest : List Request} (hqueue : s.queues stream = r :: rest)
    (other : Stream) : Function.update s.queues stream rest other <:+ s.queues other := by
  rw [Function.update_apply]
  split
  · rename_i heq
    rw [heq, hqueue]
    exact List.suffix_cons _ _
  · exact List.suffix_rfl

/-- The host does not see a step of the device. -/
theorem HostInv.deviceStep (h : HostInv s) (hframe : Frame s t) : HostInv t := by
  obtain ⟨kernels, numKernels, bootstraps, numBootstraps, pc, queues, results, hostLog, deviceLog⟩ := t
  obtain ⟨rfl, rfl, rfl, rfl, rfl, rfl, -⟩ := hframe
  exact ⟨h.kernels, h.owned, h.at_, h.logged, h.healthy, h.clean, h.orderly⟩

theorem DeviceStep.frame (h : DeviceStep s t) : Frame s t := by
  cases h with
  | load hqueue _ _ => exact ⟨rfl, rfl, rfl, rfl, rfl, rfl, suffix_update hqueue⟩
  | loadThrows hqueue _ => exact ⟨rfl, rfl, rfl, rfl, rfl, rfl, suffix_update hqueue⟩
  | invoke hqueue => exact ⟨rfl, rfl, rfl, rfl, rfl, rfl, suffix_update hqueue⟩
  | unload hqueue => exact ⟨rfl, rfl, rfl, rfl, rfl, rfl, suffix_update hqueue⟩
  | removeBootstrap hqueue => exact ⟨rfl, rfl, rfl, rfl, rfl, rfl, suffix_update hqueue⟩

theorem eq_of_mem_of_length {requests : List Request} (hlength : requests.length ≤ 1) {r r' : Request}
    (hr : r ∈ requests) (hr' : r' ∈ requests) : r = r' := by
  match requests, hlength with
  | [only], _ => rw [List.mem_singleton.mp hr, List.mem_singleton.mp hr']

/-- An unload that is executed leaves its queue empty. -/
theorem DeviceInv.unload_queue (h : DeviceInv s) {stream : Stream} {a : BitVec 64} {rest : List Request}
    (hqueue : s.queues stream = .unload b k a :: rest) :
    stream = .loader b ∧ rest = [] ∧ holder s.deviceLog a = some k := by
  have hmem : Request.unload b k a ∈ s.queues stream := by simp [hqueue]
  cases stream with
  | user n =>
      obtain ⟨_, _, _, hinvoke, -⟩ := h.user n _ hmem
      simp at hinvoke
  | loader b' =>
      obtain ⟨rfl, -, hholder⟩ := h.loader b' _ hmem
      have hone := h.one b
      rw [hqueue, List.length_cons] at hone
      exact ⟨rfl, List.length_eq_zero_iff.mp (by omega), hholder⟩

/-- A module stays live unless the unload of its kernel is executed. -/
theorem DeviceInv.holder_step (h : DeviceInv s) (hstep : DeviceStep s t) {a : BitVec 64}
    (hholder : holder s.deviceLog a = some k)
    (hkept : ∀ b b' a', .unload b' k a' ∈ s.queues (.loader b) → .unload b' k a' ∈ t.queues (.loader b)) :
    holder t.deviceLog a = some k := by
  cases hstep with
  | @load stream b' k' rest module hqueue hnew hmodule =>
      have hne : a ≠ module := by
        rintro rfl
        rw [hnew] at hholder
        simp at hholder
      exact (if_neg hne).trans hholder
  | loadThrows hqueue hstatus => exact hholder
  | invoke hqueue => exact hholder
  | @unload stream b' k' module rest hqueue =>
      obtain ⟨rfl, rfl, hmodule⟩ := h.unload_queue hqueue
      have hne : a ≠ module := by
        rintro rfl
        obtain rfl : k = k' := Option.some.inj (hholder.symm.trans hmodule)
        have hmem : Request.unload b' k a ∈ Function.update s.queues (.loader b') [] (.loader b') :=
          hkept b' b' a (by simp [hqueue])
        rw [Function.update_self] at hmem
        exact List.not_mem_nil hmem
      exact (if_neg hne).trans hholder
  | removeBootstrap hqueue => exact hholder

/-- While no unload of the kernel is queued, its module stays live. -/
theorem DeviceInv.holder_of_noUnload (h : DeviceInv s) (hstep : DeviceStep s t) {a : BitVec 64}
    (hholder : holder s.deviceLog a = some k) (hnone : s.NoUnload k) : holder t.deviceLog a = some k :=
  h.holder_step hstep hholder fun b b' a' hmem => absurd hmem (hnone b b' a')

theorem Frame.noUnload (h : Frame s t) (hnone : s.NoUnload k) : t.NoUnload k :=
  fun b b' a hmem => hnone b b' a ((h.suffix _).subset hmem)

/-- Only requests of its own stream change the result buffer of a bootstrap. -/
theorem DeviceInv.results_step (h : DeviceInv s) (hstep : DeviceStep s t) (hempty : s.queues (.loader b) = []) :
    t.results b = s.results b := by
  have hother : ∀ {stream r rest}, s.queues stream = r :: rest → (∀ b' k a, r ≠ .invoke b' k a) → b ≠ r.bootstrap := by
    intro stream r rest hqueue hrequest
    have hmem : r ∈ s.queues stream := by simp [hqueue]
    cases stream with
    | user n =>
        obtain ⟨b', k, a, hinvoke, -⟩ := h.user n r hmem
        exact absurd hinvoke (hrequest b' k a)
    | loader b' =>
        have hpending := h.loader b' r hmem
        have hbootstrap : r.bootstrap = b' := by
          cases r with
          | load _ _ => exact hpending.1
          | invoke _ _ _ => exact absurd rfl (hrequest _ _ _)
          | unload _ _ _ => exact hpending.1
          | removeBootstrap _ => exact hpending
        rintro rfl
        rw [hbootstrap, hqueue] at hempty
        simp at hempty
  cases hstep with
  | load hqueue _ _ => exact Function.update_of_ne (hother hqueue (by simp)) _ _
  | loadThrows hqueue _ => exact Function.update_of_ne (hother hqueue (by simp)) _ _
  | invoke hqueue => rfl
  | unload hqueue => exact Function.update_of_ne (hother hqueue (by simp)) _ _
  | removeBootstrap hqueue => exact Function.update_of_ne (hother hqueue (by simp)) _ _

theorem DeviceInv.answered_step (h : DeviceInv s) (hstep : DeviceStep s t) {result : LoaderResult}
    (hfresh : ∀ k, p = .load k → s.NoUnload k) (hanswered : s.Answered p result) : t.Answered p result :=
  fun k hp hstatus => h.holder_of_noUnload hstep (hanswered k hp hstatus) (hfresh k hp)

/-- The step that executes a load leaves its result. -/
theorem DeviceStep.answer (h : DeviceStep s t) (hqueued : s.queues (.loader b) = [.load b k])
    (hpopped : t.queues (.loader b) = []) (hstatus : (t.results b).status = 0) :
    holder t.deviceLog (t.results b).module = some k := by
  have hstream : ∀ {stream rest}, Function.update s.queues stream rest (.loader b) = [] → stream = .loader b := by
    intro stream rest hpopped
    by_contra hne
    rw [Function.update_of_ne (Ne.symm hne), hqueued] at hpopped
    simp at hpopped
  cases h with
  | @load stream b' k' rest module hqueue hnew hmodule =>
      obtain rfl := hstream hpopped
      obtain ⟨hhead, -⟩ := List.cons.inj (hqueued.symm.trans hqueue)
      obtain ⟨rfl, rfl⟩ := Request.load.inj hhead
      show holder (.loaded module k :: s.deviceLog) (Function.update s.results b { module := module } b).module = some k
      rw [Function.update_self, holder, if_pos rfl]
  | @loadThrows stream b' k' rest status hqueue hnonzero =>
      obtain rfl := hstream hpopped
      obtain ⟨hhead, -⟩ := List.cons.inj (hqueued.symm.trans hqueue)
      obtain ⟨rfl, rfl⟩ := Request.load.inj hhead
      have hstatus' : (Function.update s.results b { status := status } b).status = 0 := hstatus
      rw [Function.update_self] at hstatus'
      exact absurd hstatus' hnonzero
  | invoke hqueue | unload hqueue | removeBootstrap hqueue =>
      obtain rfl := hstream hpopped
      rw [hqueued] at hqueue
      simp at hqueue

/-- The request that the host waits for is executed, or not yet. -/
theorem DeviceInv.awaited_step (h : DeviceInv s) (hstep : DeviceStep s t)
    (hpc : s.pc = .executing .synchronize b p)
    (hwait : s.queues (.loader b) = [s.request b p] ∨ (s.queues (.loader b) = [] ∧ s.Answered p (s.results b))) :
    t.queues (.loader b) = [t.request b p] ∨ (t.queues (.loader b) = [] ∧ t.Answered p (t.results b)) := by
  have hframe := hstep.frame
  have hrequest : t.request b p = s.request b p := by
    cases p with
    | load k => rfl
    | unload k => rw [State.request, State.request, hframe.kernels]
    | remove => rfl
  rcases hwait with hqueued | ⟨hempty, hanswered⟩
  · have hsuffix := hframe.suffix (.loader b)
    rw [hqueued, List.suffix_cons_iff, List.suffix_nil] at hsuffix
    rcases hsuffix with hsame | hpopped
    · rw [hrequest]
      exact .inl hsame
    · refine .inr ⟨hpopped, ?_⟩
      rintro k rfl hstatus
      exact hstep.answer hqueued hpopped hstatus
  · refine .inr ⟨?_, ?_⟩
    · have hsuffix := hframe.suffix (.loader b)
      rw [hempty] at hsuffix
      exact List.suffix_nil.mp hsuffix
    · rw [h.results_step hstep hempty]
      apply h.answered_step hstep _ hanswered
      rintro k rfl
      exact h.fresh k (by rw [hpc]; rfl)

theorem DeviceInv.sound_step (h : DeviceInv s) (hstep : DeviceStep s t) : Sound t.deviceLog := by
  cases hstep with
  | load hqueue _ _ => exact h.sound
  | loadThrows hqueue _ => exact h.sound
  | @invoke stream b k module rest hqueue =>
      have hmem : Request.invoke b k module ∈ s.queues stream := by simp [hqueue]
      cases stream with
      | user n =>
          obtain ⟨b', k', a, hinvoke, -, hholder, -⟩ := h.user n _ hmem
          obtain ⟨rfl, rfl, rfl⟩ := Request.invoke.inj hinvoke
          exact ⟨hholder, h.sound⟩
      | loader b' => exact absurd (h.loader b' _ hmem) id
  | unload hqueue =>
      obtain ⟨-, -, hholder⟩ := h.unload_queue hqueue
      exact ⟨hholder, h.sound⟩
  | removeBootstrap hqueue => exact h.sound

theorem DeviceInv.deviceStep (h : DeviceInv s) (hstep : DeviceStep s t) : DeviceInv t := by
  have hframe := hstep.frame
  have hload : ∀ {stage b p}, s.pc = .executing stage b p → ∀ k, p = .load k → s.NoUnload k := by
    rintro stage b p hpc k rfl
    exact h.fresh k (by rw [hpc]; cases stage <;> rfl)
  exact {
    user := by
      intro n r hr
      obtain ⟨b, k, a, hinvoke, hk, hholder, hnone⟩ := h.user n r ((hframe.suffix _).subset hr)
      exact ⟨b, k, a, hinvoke, hframe.numKernels ▸ hk, h.holder_of_noUnload hstep hholder hnone, hframe.noUnload hnone⟩
    loader := by
      intro b r hr
      have hpending := h.loader b r ((hframe.suffix _).subset hr)
      cases r with
      | load b' k => exact ⟨hpending.1, hframe.numKernels ▸ hpending.2⟩
      | invoke b' k a => exact hpending
      | unload b' k a =>
          refine ⟨hpending.1, hframe.numKernels ▸ hpending.2.1, h.holder_step hstep hpending.2.2 ?_⟩
          intro other c a' hmem
          obtain rfl := h.once other b k c b' a' a hmem ((hframe.suffix _).subset hr)
          rw [eq_of_mem_of_length (h.one other) hmem ((hframe.suffix _).subset hr)]
          exact hr
      | removeBootstrap b' => exact hpending
    one := fun b => (hframe.suffix _).length_le.trans (h.one b)
    calm := by
      intro b hcalm
      rw [State.Calm, hframe.bootstraps, hframe.pc] at hcalm
      have hempty := hframe.suffix (.loader b)
      rw [h.calm b hcalm] at hempty
      exact List.suffix_nil.mp hempty
    once := fun b b' k c c' a a' hmem hmem' =>
      h.once b b' k c c' a a' ((hframe.suffix _).subset hmem) ((hframe.suffix _).subset hmem')
    live := by
      intro k b a hloaded hunloading
      rw [hframe.kernels] at hloaded
      rw [hframe.pc] at hunloading
      obtain ⟨hholder, hnone⟩ := h.live k b a hloaded hunloading
      exact ⟨h.holder_of_noUnload hstep hholder hnone, hframe.noUnload hnone⟩
    fresh := by
      intro k hk
      rw [hframe.pc] at hk
      exact hframe.noUnload (h.fresh k hk)
    at_ := by
      have hat := h.at_
      rw [State.DeviceAt] at hat
      rw [State.DeviceAt, hframe.pc]
      cases hpc : s.pc with
      | idle | draining k b | releasing b => trivial
      | concluding b p result =>
          cases result with
          | none => trivial
          | some result =>
              rw [hpc] at hat
              apply h.answered_step hstep _ hat
              rintro k rfl
              exact h.fresh k (by rw [hpc]; rfl)
      | executing stage b p =>
          rw [hpc] at hat
          cases stage with
          | check =>
              cases p with
              | load k | remove => trivial
              | unload k =>
                  intro stream
                  have hsuffix := hframe.suffix stream
                  rw [hat stream] at hsuffix
                  exact List.suffix_nil.mp hsuffix
          | synchronize => exact h.awaited_step hstep hpc hat
          | copy =>
              show t.Answered p (t.results b)
              rw [h.results_step hstep (h.calm b (.inr ⟨p, hpc⟩))]
              exact h.answered_step hstep (hload hpc) hat
          | failing => trivial
    sound := h.sound_step hstep }

end

end DeepJit.Ascend.Aicpu
