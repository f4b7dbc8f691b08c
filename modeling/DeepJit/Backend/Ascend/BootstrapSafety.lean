import DeepJit.Backend.Ascend.BootstrapDevice

/-!
# Use of AICPU modules

In every run, whatever fails and in whatever order the device works, the loader invokes and deletes
only live modules, and the host sends nothing to a bootstrap that it has removed or that has failed,
but invocations in the second case.
-/

namespace DeepJit.Ascend.Aicpu

section

variable {s t : State} {k b : Nat} {p : Purpose}

/-! ### Steps of the host -/

/-- A step that leaves the device alone. -/
theorem DeviceInv.quiet (h : DeviceInv s) (hqueues : t.queues = s.queues) (hlog : t.deviceLog = s.deviceLog)
    (hnum : s.numKernels ≤ t.numKernels) (hcalm : ∀ b, t.Calm b → s.queues (.loader b) = [])
    (hlive : ∀ k b a, t.kernels k = .loaded b a → t.pc.unloading ≠ some k →
      holder s.deviceLog a = some k ∧ s.NoUnload k)
    (hfresh : ∀ k, t.pc.loading = some k → s.NoUnload k) (hat : t.DeviceAt) : DeviceInv t := by
  have hnone : ∀ k, t.NoUnload k ↔ s.NoUnload k := fun k => by rw [State.NoUnload, hqueues, State.NoUnload]
  exact {
    user := by
      intro n r hr
      rw [hqueues] at hr
      obtain ⟨b, k, a, hinvoke, hk, hholder, hnoUnload⟩ := h.user n r hr
      exact ⟨b, k, a, hinvoke, hk.trans_le hnum, hlog ▸ hholder, (hnone k).mpr hnoUnload⟩
    loader := by
      intro b r hr
      rw [hqueues] at hr
      have hpending := h.loader b r hr
      cases r with
      | load b' k => exact ⟨hpending.1, hpending.2.trans_le hnum⟩
      | invoke b' k a => exact hpending
      | unload b' k a => exact ⟨hpending.1, hpending.2.1.trans_le hnum, hlog ▸ hpending.2.2⟩
      | removeBootstrap b' => exact hpending
    one := by
      rw [hqueues]
      exact h.one
    calm := by
      rw [hqueues]
      exact hcalm
    once := by
      rw [hqueues]
      exact h.once
    live := by
      intro k b a hloaded hunloading
      rw [hlog, hnone]
      exact hlive k b a hloaded hunloading
    fresh := by
      intro k hk
      rw [hnone]
      exact hfresh k hk
    at_ := hat
    sound := hlog ▸ h.sound }

theorem State.Calm.healthy (h : t.Calm b) (hcopy : ∀ p, t.pc ≠ .executing .copy b p) :
    (t.bootstraps b).loaderHealthy = true := by
  rcases h with hhealthy | ⟨p, hpc⟩
  · exact hhealthy
  · exact absurd hpc (hcopy p)

/-- A step that only moves the host on, not into a copy and not out of an unload. -/
theorem DeviceInv.goto (h : DeviceInv s) {pc : Pc} (hcopy : ∀ b p, pc ≠ .executing .copy b p)
    (hunloading : ∀ k, s.pc.unloading = some k → pc.unloading = some k)
    (hloading : ∀ k, pc.loading = some k → s.pc.loading = some k) (hat : (s.goto pc).DeviceAt) :
    DeviceInv (s.goto pc) := by
  refine h.quiet rfl rfl le_rfl (fun b hcalm => h.calm b (.inl (hcalm.healthy (hcopy b))))
    (fun k b a hloaded hother => ?_) (fun k hk => h.fresh k (hloading k hk)) hat
  exact h.live k b a hloaded fun hk => hother (hunloading k hk)

/-- A queue after a submission. -/
theorem mem_queues_submit {stream other : Stream} {r r' : Request} {queued : Bool}
    (h : r' ∈ (s.submit stream r queued).queues other) :
    r' ∈ s.queues other ∨ (other = stream ∧ r' = r) := by
  cases queued with
  | false => exact .inl h
  | true =>
      have hmem : r' ∈ Function.update s.queues stream (s.queues stream ++ [r]) other := h
      rw [Function.update_apply] at hmem
      split at hmem
      · rename_i heq
        rw [List.mem_append, List.mem_singleton] at hmem
        exact hmem.imp (fun hold => heq ▸ hold) fun hnew => ⟨heq, hnew⟩
      · exact .inl hmem

theorem queues_submit_of_ne {stream other : Stream} (hother : other ≠ stream) (r : Request) (queued : Bool) :
    (s.submit stream r queued).queues other = s.queues other := by
  cases queued with
  | false => rfl
  | true => exact Function.update_of_ne hother _ _

theorem DeviceInv.launch (h : DeviceInv s) (hhost : HostInv s) (hpc : s.pc = .idle)
    (hhandle : (s.kernels k).kernelHandle = some b) (stream : Nat) (queued : Bool) :
    DeviceInv (s.submit (.user stream) (.invoke b k (s.kernels k).aicpuModule) queued) := by
  obtain ⟨a, hloaded, -, hk, -⟩ := hhost.loaded_of_handle hhandle
  obtain ⟨hholder, hnone⟩ := h.live k b a hloaded (by simp [hpc, Pc.unloading])
  have hmodule : (s.kernels k).aicpuModule = a := by rw [hloaded]; rfl
  rw [hmodule]
  have hqueues : ∀ b', (s.submit (.user stream) (.invoke b k a) queued).queues (.loader b') = s.queues (.loader b') :=
    fun b' => queues_submit_of_ne (by simp) _ queued
  have hnoUnload : ∀ k', (s.submit (.user stream) (.invoke b k a) queued).NoUnload k' ↔ s.NoUnload k' := by
    intro k'
    simp only [State.NoUnload, hqueues]
  have hidle : (s.submit (.user stream) (.invoke b k a) queued).pc = .idle := hpc
  exact {
    user := by
      intro n r hr
      rcases mem_queues_submit hr with hold | ⟨-, rfl⟩
      · obtain ⟨b', k', a', hinvoke, hk', hholder', hnone'⟩ := h.user n r hold
        exact ⟨b', k', a', hinvoke, hk', hholder', (hnoUnload k').mpr hnone'⟩
      · exact ⟨b, k, a, rfl, hk, hholder, (hnoUnload k).mpr hnone⟩
    loader := by
      intro b' r hr
      rw [hqueues] at hr
      exact h.loader b' r hr
    one := by
      intro b'
      rw [hqueues]
      exact h.one b'
    calm := by
      intro b'
      rw [hqueues]
      exact h.calm b'
    once := by
      simp only [hqueues]
      exact h.once
    live := by
      intro k' b' a' hloaded' hunloading
      rw [hnoUnload]
      exact h.live k' b' a' hloaded' hunloading
    fresh := by simp [hidle, Pc.loading]
    at_ := by
      rw [State.DeviceAt, hidle]
      trivial
    sound := h.sound }

/-- The request of `execute` is an unload only of the kernel that it works for. -/
theorem purpose_of_request {b' : Nat} {a : BitVec 64} (h : .unload b' k a = s.request b p) : p = .unload k := by
  cases p with
  | load k' => simp [State.request] at h
  | unload k' => rw [(Request.unload.inj h).2.1]
  | remove => simp [State.request] at h

/-! ### The launch of `execute` -/

/-- The state after the launch. -/
def State.launched (s : State) (b : Nat) (p : Purpose) (accepted queued : Bool) : State :=
  ((s.setHealthy b false).submit (.loader b) (s.request b p) queued).goto
    (.executing (if accepted then .synchronize else .failing) b p)

section

variable {accepted queued : Bool}

theorem mem_queues_launched {stream : Stream} {r : Request}
    (h : r ∈ (s.launched b p accepted queued).queues stream) :
    r ∈ s.queues stream ∨ (stream = .loader b ∧ r = s.request b p) :=
  mem_queues_submit (s := s.setHealthy b false) h

theorem queues_launched_of_ne {b' : Nat} (hne : b' ≠ b) :
    (s.launched b p accepted queued).queues (.loader b') = s.queues (.loader b') :=
  queues_submit_of_ne (s := s.setHealthy b false) (by simp [hne]) _ queued

theorem queues_launched (hempty : s.queues (.loader b) = []) :
    (s.launched b p accepted queued).queues (.loader b) = if queued then [s.request b p] else [] := by
  cases queued with
  | false => exact hempty
  | true =>
      show Function.update s.queues (.loader b) (s.queues (.loader b) ++ [s.request b p]) (.loader b) = _
      rw [Function.update_self, hempty]
      rfl

theorem pending_launched {b' : Nat} {r : Request} :
    (s.launched b p accepted queued).Pending b' r ↔ s.Pending b' r := by
  cases r <;> exact Iff.rfl

theorem noUnload_launched (hp : p ≠ .unload k) (hnone : s.NoUnload k) :
    (s.launched b p accepted queued).NoUnload k := by
  intro b' c a hr
  rcases mem_queues_launched hr with hold | ⟨-, hnew⟩
  · exact hnone b' c a hold
  · exact hp (purpose_of_request hnew)

theorem unloading_launched (hp : p = .unload k) : (s.launched b p accepted queued).pc.unloading = some k := by
  subst hp
  cases accepted <;> rfl

theorem loading_launched (hk : (s.launched b p accepted queued).pc.loading = some k) : p = .load k := by
  cases p with
  | load k' => exact congrArg Purpose.load (Option.some.inj hk)
  | unload k' => simp [State.launched, State.goto, Pc.loading] at hk
  | remove => simp [State.launched, State.goto, Pc.loading] at hk

/-- Before the launch a module that the host holds is live, and its unload is not queued. -/
theorem DeviceInv.live_check (h : DeviceInv s) (hpc : s.pc = .executing .check b p) {b' : Nat} {a : BitVec 64}
    (hloaded : s.kernels k = .loaded b' a) : holder s.deviceLog a = some k ∧ s.NoUnload k :=
  h.live k b' a hloaded (by rw [hpc]; cases p <;> simp [Pc.unloading])

theorem DeviceInv.pending_request (h : DeviceInv s) (hhost : HostInv s) (hpc : s.pc = .executing .check b p) :
    s.Pending b (s.request b p) := by
  obtain ⟨hworking, -⟩ := hhost.executing hpc
  cases p with
  | load k => exact ⟨rfl, hworking.2.2⟩
  | unload k =>
      obtain ⟨a, hloaded⟩ := hworking
      obtain ⟨_, -, -, hk, -⟩ := hhost.loaded_of_handle (k := k) (b := b) (by rw [hloaded]; rfl)
      refine ⟨rfl, hk, ?_⟩
      rw [hloaded]
      exact (h.live_check hpc hloaded).1
  | remove => rfl

/-- The request of the launch is no unload that is queued already. -/
theorem DeviceInv.request_new (h : DeviceInv s) (hhost : HostInv s) (hpc : s.pc = .executing .check b p)
    {b' c c' : Nat} {a a' : BitVec 64} (hold : .unload c k a ∈ s.queues (.loader b')) :
    .unload c' k a' ≠ s.request b p := by
  intro hrequest
  obtain rfl := purpose_of_request hrequest
  obtain ⟨a'', hloaded⟩ := (hhost.executing hpc).1
  exact (h.live_check hpc hloaded).2 b' c a hold

theorem DeviceInv.once_launched (h : DeviceInv s) (hhost : HostInv s) (hpc : s.pc = .executing .check b p)
    {b₁ b₂ c₁ c₂ : Nat} {a₁ a₂ : BitVec 64}
    (h₁ : .unload c₁ k a₁ ∈ (s.launched b p accepted queued).queues (.loader b₁))
    (h₂ : .unload c₂ k a₂ ∈ (s.launched b p accepted queued).queues (.loader b₂)) : b₁ = b₂ := by
  rcases mem_queues_launched h₁ with hold₁ | ⟨hstream₁, hnew₁⟩
  · rcases mem_queues_launched h₂ with hold₂ | ⟨-, hnew₂⟩
    · exact h.once b₁ b₂ k c₁ c₂ a₁ a₂ hold₁ hold₂
    · exact absurd hnew₂ (h.request_new hhost hpc hold₁)
  · rcases mem_queues_launched h₂ with hold₂ | ⟨hstream₂, -⟩
    · exact absurd hnew₁ (h.request_new hhost hpc hold₂)
    · exact (Stream.loader.inj hstream₁).trans (Stream.loader.inj hstream₂).symm

theorem DeviceInv.submit (h : DeviceInv s) (hhost : HostInv s) (hpc : s.pc = .executing .check b p)
    (hhealthy : (s.bootstraps b).loaderHealthy = true) (hqueued : accepted = true → queued = true) :
    DeviceInv (s.launched b p accepted queued) := by
  have hat := h.at_
  rw [State.DeviceAt, hpc] at hat
  have hempty := h.calm b (.inl hhealthy)
  exact {
    user := by
      intro n r hr
      rcases mem_queues_launched hr with hold | ⟨hstream, -⟩
      · obtain ⟨b', k, a, hinvoke, hk, hholder, hnone⟩ := h.user n r hold
        refine ⟨b', k, a, hinvoke, hk, hholder, noUnload_launched ?_ hnone⟩
        rintro rfl
        rw [hat (.user n)] at hold
        exact List.not_mem_nil hold
      · simp at hstream
    loader := by
      intro b' r hr
      rw [pending_launched]
      rcases mem_queues_launched hr with hold | ⟨hstream, rfl⟩
      · exact h.loader b' r hold
      · obtain rfl : b' = b := Stream.loader.inj hstream
        exact h.pending_request hhost hpc
    one := by
      intro b'
      by_cases heq : b' = b
      · subst heq
        rw [queues_launched hempty]
        cases queued <;> simp
      · rw [queues_launched_of_ne heq]
        exact h.one b'
    calm := by
      intro b' hcalm
      have hup : ((s.setHealthy b false).bootstraps b').loaderHealthy = true :=
        hcalm.healthy (by cases accepted <;> simp [State.launched, State.goto])
      have hne : b' ≠ b := by
        rintro rfl
        rw [bootstraps_setHealthy, if_pos rfl] at hup
        simp at hup
      rw [bootstraps_setHealthy, if_neg hne] at hup
      rw [queues_launched_of_ne hne]
      exact h.calm b' (.inl hup)
    once := fun _ _ _ _ _ _ _ => h.once_launched hhost hpc
    live := by
      intro k b' a hloaded hother
      obtain ⟨hholder, hnone⟩ := h.live_check hpc hloaded
      exact ⟨hholder, noUnload_launched (fun hp => hother (unloading_launched hp)) hnone⟩
    fresh := by
      intro k hk
      have hp := loading_launched hk
      refine noUnload_launched (by simp [hp]) (h.fresh k ?_)
      rw [hpc, hp]
      rfl
    at_ := by
      cases accepted with
      | false => trivial
      | true =>
          left
          rw [queues_launched hempty, hqueued rfl]
          cases p <;> rfl
    sound := h.sound }

end

theorem DeviceInv.hostStep (h : DeviceInv s) (hhost : HostInv s) (hstep : HostStep s t) : DeviceInv t := by
  have hat := h.at_
  rw [State.DeviceAt] at hat
  cases hstep with
  | construct hpc =>
      refine h.quiet rfl rfl le_rfl (fun b hcalm => h.calm b ?_) h.live h.fresh ?_
      · rcases hcalm with hhealthy | ⟨p, hcopy⟩
        · left
          by_contra hdown
          rcases (hhost.healthy b).mp (Bool.eq_false_iff.mpr hdown) with hfailed | hflight
          · have hne : b ≠ s.numBootstraps := by
              rintro rfl
              exact absurd (hhost.logged _ hfailed) (Nat.lt_irrefl _)
            have hsame : (Function.update s.bootstraps s.numBootstraps { owned := true } b).loaderHealthy = true := hhealthy
            rw [Function.update_of_ne hne] at hsame
            exact hdown hsame
          · simp [hpc, Pc.inFlight] at hflight
        · exact .inr ⟨p, hcopy⟩
      · show State.DeviceAt _
        rw [State.DeviceAt, hpc]
        trivial
  | @load b hpc howned =>
      refine h.quiet rfl rfl (Nat.le_succ _) (fun b' hcalm => h.calm b' (.inl (hcalm.healthy (by simp))))
        (fun k b a hloaded _ => ?_) (fun k hk => ?_) trivial
      · exact h.live k b a hloaded (by simp [hpc, Pc.unloading])
      · obtain rfl : s.numKernels = k := Option.some.inj hk
        intro b' c a hmem
        exact absurd (h.loader b' _ hmem).2.1 (Nat.lt_irrefl _)
  | launch stream queued hpc hhandle => exact h.launch hhost hpc hhandle stream queued
  | @unload k b hpc hmodule hbootstrap =>
      exact h.goto (by simp) (by simp [hpc, Pc.unloading]) (by simp [Pc.loading]) trivial
  | @drain k b hpc hdone =>
      exact h.goto (by simp) (by simp [hpc, Pc.unloading]) (by simp [Pc.loading]) hdone
  | drainFails hpc => exact h.goto (by simp) (by simp [hpc, Pc.unloading]) (by simp [Pc.loading]) trivial
  | @unhealthy b p hpc hhealthy =>
      refine h.goto (by simp) ?_ ?_ trivial <;> cases p <;> simp [hpc, Pc.unloading, Pc.loading]
  | submit hpc hhealthy hqueued => exact h.submit hhost hpc hhealthy hqueued
  | @synchronize b p hpc hdone =>
      refine h.quiet rfl rfl le_rfl (fun b' hcalm => ?_) (fun k b' a hloaded hother => ?_) (fun k hk => ?_) ?_
      · rcases hcalm with hhealthy | ⟨p', hcopy⟩
        · exact h.calm b' (.inl hhealthy)
        · obtain ⟨-, rfl, -⟩ := Pc.executing.inj hcopy
          exact hdone
      · exact h.live k b' a hloaded (by rw [hpc]; cases p <;> exact hother)
      · exact h.fresh k (by rw [hpc]; cases p <;> exact hk)
      · rw [hpc] at hat
        rcases hat with hqueued | ⟨-, hanswered⟩
        · rw [hdone] at hqueued
          simp at hqueued
        · exact hanswered
  | @copy b p hpc =>
      refine h.quiet rfl rfl le_rfl (fun b' hcalm => h.calm b' ?_) (fun k b' a hloaded hother => ?_) (fun k hk => ?_) ?_
      · by_cases heq : b' = b
        · exact .inr ⟨p, heq ▸ hpc⟩
        · have hsame : ((s.setHealthy b true).bootstraps b').loaderHealthy = true :=
            hcalm.healthy (by simp [State.goto])
          rw [bootstraps_setHealthy, if_neg heq] at hsame
          exact .inl hsame
      · exact h.live k b' a hloaded (by rw [hpc]; cases p <;> exact hother)
      · exact h.fresh k (by rw [hpc]; cases p <;> exact hk)
      · rw [hpc] at hat
        exact hat
  | @fail stage b p hpc hstage =>
      refine h.quiet rfl rfl le_rfl (fun b' hcalm => h.calm b' (.inl (hcalm.healthy (by simp))))
        (fun k b' a hloaded hother => ?_) (fun k hk => ?_) trivial
      · apply h.live k b' a hloaded
        rw [hpc]
        cases stage with
        | check => exact absurd rfl hstage
        | synchronize | copy | failing => cases p <;> exact hother
      · apply h.fresh k
        rw [hpc]
        cases p <;> exact hk
  | @loaded k b result hpc hstatus =>
      rw [hpc] at hat
      refine h.quiet rfl rfl le_rfl (fun b' hcalm => h.calm b' (.inl (hcalm.healthy (by simp [State.goto]))))
        (fun k' b' a hloaded _ => ?_) (by simp [State.goto, Pc.loading]) trivial
      · have hloaded' : (s.setKernel k (.loaded b result.module)).kernels k' = .loaded b' a := hloaded
        rw [kernels_setKernel] at hloaded'
        split at hloaded'
        · rename_i heq
          subst heq
          obtain rfl : result.module = a := congrArg (fun kernel => kernel.aicpuModule) hloaded'
          exact ⟨hat k' rfl hstatus, h.fresh k' (by rw [hpc]; rfl)⟩
        · exact h.live k' b' a hloaded' (by simp [hpc, Pc.unloading])
  | loadThrows hpc hstatus => exact h.goto (by simp) (by simp [hpc, Pc.unloading]) (by simp [Pc.loading]) trivial
  | @unloaded k b result hpc =>
      refine h.quiet rfl rfl le_rfl (fun b' hcalm => h.calm b' (.inl (hcalm.healthy (by simp [State.goto]))))
        (fun k' b' a hloaded _ => ?_) (by simp [State.goto, Pc.loading]) trivial
      · have hloaded' : (s.setKernel k (s.kernels k).unloaded).kernels k' = .loaded b' a := hloaded
        rw [kernels_setKernel] at hloaded'
        split at hloaded'
        · have hhandle := congrArg (fun kernel => kernel.kernelHandle) hloaded'
          simp [HostKernel.loaded, HostKernel.unloaded] at hhandle
        · rename_i hne
          exact h.live k' b' a hloaded' (by simp [hpc, Pc.unloading, Ne.symm hne])
  | @drop b hpc howned =>
      refine h.quiet rfl rfl le_rfl (fun b' hcalm => h.calm b' (.inl ?_)) (fun k' b' a hloaded _ => ?_)
        (by simp [State.goto, Pc.loading]) trivial
      · rw [← loaderHealthy_setOwned s b false b']
        exact hcalm.healthy (by simp [State.goto])
      · exact h.live k' b' a hloaded (by simp [hpc, Pc.unloading])
  | keep hpc hreferenced => exact h.goto (by simp) (by simp [hpc, Pc.unloading]) (by simp [Pc.loading]) trivial
  | release hpc hreferenced => exact h.goto (by simp) (by simp [hpc, Pc.unloading]) (by simp [Pc.loading]) trivial
  | removed hpc => exact h.goto (by simp) (by simp [hpc, Pc.unloading]) (by simp [Pc.loading]) trivial

/-- Both sides. -/
theorem inv_step {actor : Actor} (h : HostInv s ∧ DeviceInv s) (hstep : loaderSystem.step s actor t) :
    HostInv t ∧ DeviceInv t := by
  cases actor with
  | host => exact ⟨h.1.step hstep, h.2.hostStep h.1 hstep⟩
  | device => exact ⟨h.1.deviceStep hstep.frame, h.2.deviceStep hstep⟩

end

/-- In every run of the host and the device the loader invokes and deletes only live modules, each
for the kernel that loaded it, and the host keeps the order of requests: nothing follows a
RemoveBootstrap, and only invocations follow a failed ACL call of `execute`, which is also the only
thing that stops the next `execute`. -/
theorem loader_safe (s : State) (h : loaderSystem.Reachable s) : Safe s := by
  have hinit : ∀ s, loaderSystem.init s → HostInv s ∧ DeviceInv s := by
    rintro s rfl
    exact ⟨HostInv.initial, DeviceInv.initial⟩
  obtain ⟨hhost, hdevice⟩ := h.invariant (I := fun s => HostInv s ∧ DeviceInv s) hinit fun _ _ _ => inv_step
  refine ⟨hdevice.sound, hhost.orderly, fun b p hpc => ?_⟩
  have hhealthy := hhost.healthy b
  rw [hpc] at hhealthy
  have hfailed : (s.bootstraps b).loaderHealthy = false ↔ s.Failed b := by
    simpa [Pc.inFlight] using hhealthy
  rw [← Bool.not_eq_false, not_iff_not]
  exact hfailed

/-- A kernel is loaded, launched and invoked. -/
theorem loader_safe_invoked : ∃ s, s.deviceLog = [.invoked 1 0, .loaded 1 0] ∧ Safe s := by
  have hconstruct : loaderSystem.Run {} _ := (TransitionSystem.Run.refl _).tail (a := .host) (HostStep.construct rfl)
  have hload := hconstruct.tail (a := .host) (HostStep.load (b := 0) rfl rfl)
  have hsubmit := hload.tail (a := .host) (@HostStep.submit _ _ _ true true rfl rfl id)
  have hloaded := hsubmit.tail (a := .device) (@DeviceStep.load _ (.loader 0) _ _ _ 1 rfl rfl (by decide))
  have hsynchronize := hloaded.tail (a := .host) (HostStep.synchronize rfl rfl)
  have hcopy := hsynchronize.tail (a := .host) (HostStep.copy rfl)
  have hkernel := hcopy.tail (a := .host) (HostStep.loaded rfl rfl)
  have hlaunch := hkernel.tail (a := .host) (HostStep.launch (k := 0) (b := 0) 0 true rfl rfl)
  have hinvoke := hlaunch.tail (a := .device) (@DeviceStep.invoke _ (.user 0) _ _ _ _ rfl)
  exact ⟨_, rfl, loader_safe _ ⟨{}, rfl, hinvoke⟩⟩

end DeepJit.Ascend.Aicpu
