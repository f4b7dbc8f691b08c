import DeepJit.Backend.Ascend.Bootstrap

/-!
# Ownership and health of a bootstrap

What the host keeps by itself, whatever the device does: a kernel holds a reference to its bootstrap
for as long as it has a module, a bootstrap is removed when nobody refers to it, and its health flag
is down exactly after a failure and while `execute` is under way.
-/

namespace DeepJit.Ascend.Aicpu

namespace Pc

/-- The bootstrap whose `execute` has cleared the health flag and has not ended. -/
def inFlight : Pc → Option Nat
  | .executing .check _ _ => none
  | .executing _ b _ => some b
  | _ => none

/-- The kernel whose unload has come as far as to submit a request. -/
def unloading : Pc → Option Nat
  | .executing .check _ (.unload _) => none
  | .executing _ _ (.unload k) => some k
  | .concluding _ (.unload k) _ => some k
  | _ => none

def loading : Pc → Option Nat
  | .executing _ _ (.load k) => some k
  | .concluding _ (.load k) _ => some k
  | _ => none

end Pc

/-- A kernel without a module. -/
structure HostKernel.Empty (kernel : HostKernel) : Prop where
  module : kernel.aicpuModule = 0
  handle : kernel.kernelHandle = none
  bootstrap : kernel.aicpuBootstrap = none

theorem HostKernel.empty_unloaded (kernel : HostKernel) : kernel.unloaded.Empty := ⟨rfl, rfl, rfl⟩

namespace State

def Removed (s : State) (b : Nat) : Prop := .submitted (.removeBootstrap b) ∈ s.hostLog

def Failed (s : State) (b : Nat) : Prop := .failed b ∈ s.hostLog

/-- What the host relies on during a call of `execute`. -/
def Working (s : State) (b : Nat) : Purpose → Prop
  | .load k => (s.bootstraps b).owned = true ∧ (s.kernels k).Empty ∧ k < s.numKernels
  | .unload k => ∃ a, s.kernels k = .loaded b a
  | .remove => b < s.numBootstraps ∧ ¬s.Referenced b

/-- What the host relies on at each point. -/
def HostAt (s : State) : Prop :=
  match s.pc with
  | .idle => True
  | .draining k b => ∃ a, s.kernels k = .loaded b a
  | .executing stage b p => s.Working b p ∧ (stage = .check → ¬s.Removed b)
  | .concluding b p _ => s.Working b p
  | .releasing b => b < s.numBootstraps ∧ ¬s.Removed b

end State

structure HostInv (s : State) : Prop where
  kernels : ∀ k, (s.kernels k).Empty ∨
    ∃ b a, s.kernels k = .loaded b a ∧ b < s.numBootstraps ∧ k < s.numKernels ∧ ¬s.Removed b
  owned : ∀ b, (s.bootstraps b).owned = true → b < s.numBootstraps ∧ ¬s.Removed b
  at_ : s.HostAt
  logged : ∀ event ∈ s.hostLog, event.bootstrap < s.numBootstraps
  healthy : ∀ b, (s.bootstraps b).loaderHealthy = false ↔ s.Failed b ∨ s.pc.inFlight = some b
  clean : ∀ b, s.pc.inFlight = some b → ¬s.Failed b
  orderly : Orderly s.hostLog

section

variable {s t : State} {k b : Nat} {p : Purpose}

theorem HostInv.initial : HostInv {} where
  kernels _ := .inl ⟨rfl, rfl, rfl⟩
  owned := by simp
  at_ := trivial
  logged := by simp
  healthy := by simp [State.Failed, Pc.inFlight]
  clean := by simp [State.Failed]
  orderly := trivial

/-- A step that only moves the host on. -/
theorem HostInv.goto (h : HostInv s) {pc : Pc} (hflight : pc.inFlight = s.pc.inFlight)
    (hat : (s.goto pc).HostAt) : HostInv (s.goto pc) where
  kernels := h.kernels
  owned := h.owned
  at_ := hat
  logged := h.logged
  healthy b := by
    show _ ↔ s.Failed b ∨ pc.inFlight = some b
    rw [hflight]
    exact h.healthy b
  clean b hb := h.clean b (hflight ▸ hb)
  orderly := h.orderly

theorem HostInv.draining (h : HostInv s) (hpc : s.pc = .draining k b) : ∃ a, s.kernels k = .loaded b a := by
  have hat := h.at_
  rw [State.HostAt, hpc] at hat
  exact hat

theorem HostInv.executing (h : HostInv s) {stage : Stage} (hpc : s.pc = .executing stage b p) :
    s.Working b p ∧ (stage = .check → ¬s.Removed b) := by
  have hat := h.at_
  rw [State.HostAt, hpc] at hat
  exact hat

theorem HostInv.concluding (h : HostInv s) {result : Option LoaderResult} (hpc : s.pc = .concluding b p result) :
    s.Working b p := by
  have hat := h.at_
  rw [State.HostAt, hpc] at hat
  exact hat

theorem HostInv.releasing (h : HostInv s) (hpc : s.pc = .releasing b) : b < s.numBootstraps ∧ ¬s.Removed b := by
  have hat := h.at_
  rw [State.HostAt, hpc] at hat
  exact hat

/-- A kernel with a handle has been loaded by the bootstrap of the handle. -/
theorem HostInv.loaded_of_handle (h : HostInv s) (hhandle : (s.kernels k).kernelHandle = some b) :
    ∃ a, s.kernels k = .loaded b a ∧ b < s.numBootstraps ∧ k < s.numKernels ∧ ¬s.Removed b := by
  rcases h.kernels k with hempty | ⟨b', a, hloaded, hb, hk, hremoved⟩
  · rw [hempty.handle] at hhandle
    simp at hhandle
  · rw [hloaded] at hhandle
    obtain rfl : b' = b := Option.some.inj hhandle
    exact ⟨a, hloaded, hb, hk, hremoved⟩

theorem HostInv.loaded_of_bootstrap (h : HostInv s) (hbootstrap : (s.kernels k).aicpuBootstrap = some b) :
    ∃ a, s.kernels k = .loaded b a ∧ b < s.numBootstraps ∧ ¬s.Removed b := by
  rcases h.kernels k with hempty | ⟨b', a, hloaded, hb, -, hremoved⟩
  · rw [hempty.bootstrap] at hbootstrap
    simp at hbootstrap
  · rw [hloaded] at hbootstrap
    obtain rfl : b' = b := Option.some.inj hbootstrap
    exact ⟨a, hloaded, hb, hremoved⟩

/-- The bootstrap of a call of `execute` exists. -/
theorem HostInv.lt_of_working (h : HostInv s) (hworking : s.Working b p) : b < s.numBootstraps := by
  cases p with
  | load k => exact (h.owned b hworking.1).1
  | unload k =>
      obtain ⟨a, hloaded⟩ := hworking
      exact (h.loaded_of_bootstrap (k := k) (by rw [hloaded]; rfl)).choose_spec.2.1
  | remove => exact hworking.1

theorem bootstraps_setHealthy (s : State) (b : Nat) (healthy : Bool) (b' : Nat) :
    (s.setHealthy b healthy).bootstraps b' =
      if b' = b then { s.bootstraps b with loaderHealthy := healthy } else s.bootstraps b' :=
  Function.update_apply ..

theorem bootstraps_setOwned (s : State) (b : Nat) (owned : Bool) (b' : Nat) :
    (s.setOwned b owned).bootstraps b' =
      if b' = b then { s.bootstraps b with owned := owned } else s.bootstraps b' := Function.update_apply ..

theorem kernels_setKernel (s : State) (k : Nat) (kernel : HostKernel) (k' : Nat) :
    (s.setKernel k kernel).kernels k' = if k' = k then kernel else s.kernels k' := Function.update_apply ..

theorem owned_setHealthy (s : State) (b : Nat) (healthy : Bool) (b' : Nat) :
    ((s.setHealthy b healthy).bootstraps b').owned = (s.bootstraps b').owned := by
  rw [bootstraps_setHealthy]
  split
  · rename_i heq
    rw [heq]
  · rfl

theorem loaderHealthy_setOwned (s : State) (b : Nat) (owned : Bool) (b' : Nat) :
    ((s.setOwned b owned).bootstraps b').loaderHealthy = (s.bootstraps b').loaderHealthy := by
  rw [bootstraps_setOwned]
  split
  · rename_i heq
    rw [heq]
  · rfl

/-! ### Steps that do more than move the host on -/

theorem HostInv.construct (h : HostInv s) (hpc : s.pc = .idle) :
    HostInv { s with
      bootstraps := Function.update s.bootstraps s.numBootstraps { owned := true }
      numBootstraps := s.numBootstraps + 1 } where
  kernels k := by
    rcases h.kernels k with hempty | ⟨b, a, hloaded, hb, hk, hremoved⟩
    · exact .inl hempty
    · exact .inr ⟨b, a, hloaded, Nat.lt_succ_of_lt hb, hk, hremoved⟩
  owned b hb := by
    by_cases hnew : b = s.numBootstraps
    · subst hnew
      exact ⟨Nat.lt_succ_self _, fun hremoved => absurd (h.logged _ hremoved) (Nat.lt_irrefl _)⟩
    · have howned : (s.bootstraps b).owned = true := by
        rw [← hb]
        exact congrArg Bootstrap.owned (Function.update_of_ne hnew _ _).symm
      exact ⟨Nat.lt_succ_of_lt (h.owned b howned).1, (h.owned b howned).2⟩
  at_ := by
    show State.HostAt _
    rw [State.HostAt, hpc]
    trivial
  logged event hevent := Nat.lt_succ_of_lt (h.logged event hevent)
  healthy b := by
    show (Function.update s.bootstraps s.numBootstraps { owned := true } b).loaderHealthy = false ↔
      s.Failed b ∨ s.pc.inFlight = some b
    by_cases hnew : b = s.numBootstraps
    · subst hnew
      have hfailed : ¬s.Failed s.numBootstraps := fun hfailed => absurd (h.logged _ hfailed) (Nat.lt_irrefl _)
      simp [hfailed, hpc, Pc.inFlight]
    · rw [Function.update_of_ne hnew]
      exact h.healthy b
  clean := h.clean
  orderly := h.orderly

theorem HostInv.load (h : HostInv s) (hpc : s.pc = .idle) (howned : (s.bootstraps b).owned = true) :
    HostInv { s with numKernels := s.numKernels + 1, pc := .executing .check b (.load s.numKernels) } where
  kernels k := by
    rcases h.kernels k with hempty | ⟨b, a, hloaded, hb, hk, hremoved⟩
    · exact .inl hempty
    · exact .inr ⟨b, a, hloaded, hb, Nat.lt_succ_of_lt hk, hremoved⟩
  owned := h.owned
  at_ := by
    refine ⟨⟨howned, ?_, Nat.lt_succ_self _⟩, fun _ => (h.owned b howned).2⟩
    rcases h.kernels s.numKernels with hempty | ⟨_, _, _, _, hk, _⟩
    · exact hempty
    · exact absurd hk (Nat.lt_irrefl _)
  logged := h.logged
  healthy b := by
    have hhealthy := h.healthy b
    rw [hpc] at hhealthy
    exact hhealthy
  clean := by simp [Pc.inFlight]
  orderly := h.orderly

theorem HostInv.launch (h : HostInv s) (hpc : s.pc = .idle) (hhandle : (s.kernels k).kernelHandle = some b)
    (stream : Stream) (module : BitVec 64) (queued : Bool) :
    HostInv (s.submit stream (.invoke b k module) queued) := by
  obtain ⟨a, -, hb, -, hremoved⟩ := h.loaded_of_handle hhandle
  have hremoved_iff : ∀ b', (s.submit stream (.invoke b k module) queued).Removed b' ↔ s.Removed b' := by
    simp [State.Removed, State.submit]
  have hfailed_iff : ∀ b', (s.submit stream (.invoke b k module) queued).Failed b' ↔ s.Failed b' := by
    simp [State.Failed, State.submit]
  exact {
    kernels := by
      intro k
      simp only [hremoved_iff]
      exact h.kernels k
    owned := by
      intro b'
      rw [hremoved_iff]
      exact h.owned b'
    at_ := by
      show State.HostAt _
      have hidle : (s.submit stream (.invoke b k module) queued).pc = .idle := hpc
      rw [State.HostAt, hidle]
      trivial
    logged := by
      intro event hevent
      rcases List.mem_cons.mp hevent with rfl | hevent
      · exact hb
      · exact h.logged event hevent
    healthy := by
      intro b'
      rw [hfailed_iff]
      exact h.healthy b'
    clean := by
      intro b'
      rw [hfailed_iff]
      exact h.clean b'
    orderly := ⟨hremoved, fun hinvoke => absurd rfl hinvoke, h.orderly⟩ }

/-- What `execute` works for does not depend on the health and the logs. -/
theorem working_congr (hkernels : t.kernels = s.kernels) (hnumKernels : t.numKernels = s.numKernels)
    (howned : ∀ b, (t.bootstraps b).owned = (s.bootstraps b).owned) (hnum : t.numBootstraps = s.numBootstraps)
    (h : s.Working b p) : t.Working b p := by
  cases p with
  | load k =>
      refine ⟨(howned b).trans h.1, ?_, hnumKernels ▸ h.2.2⟩
      rw [hkernels]
      exact h.2.1
  | unload k =>
      obtain ⟨a, hloaded⟩ := h
      exact ⟨a, (congrFun hkernels k).trans hloaded⟩
  | remove =>
      refine ⟨hnum ▸ h.1, fun hreferenced => h.2 ?_⟩
      rw [State.Referenced, howned, hkernels] at hreferenced
      exact hreferenced

/-- The request of `execute` is a RemoveBootstrap only for a bootstrap without references. -/
theorem not_referenced_of_request (hworking : s.Working b p) {b' : Nat}
    (hrequest : s.request b p = .removeBootstrap b') : b' = b ∧ ¬s.Referenced b := by
  cases p with
  | load k => simp [State.request] at hrequest
  | unload k => simp [State.request] at hrequest
  | remove => exact ⟨(Request.removeBootstrap.inj hrequest).symm, hworking.2⟩

theorem bootstrap_request (s : State) (b : Nat) (p : Purpose) : (s.request b p).bootstrap = b := by
  cases p <;> rfl

theorem HostInv.submit (h : HostInv s) (hpc : s.pc = .executing .check b p)
    (hhealthy : (s.bootstraps b).loaderHealthy = true) {stage : Stage} (hstage : stage ≠ .check) (queued : Bool) :
    HostInv (((s.setHealthy b false).submit (.loader b) (s.request b p) queued).goto (.executing stage b p)) := by
  obtain ⟨hworking, hcheck⟩ := h.executing hpc
  have hfailed : ¬s.Failed b := fun hfailed => by
    rw [(h.healthy b).mpr (.inl hfailed)] at hhealthy
    simp at hhealthy
  have hflight : ∀ b', (Pc.executing stage b p).inFlight = some b' ↔ b = b' := by
    intro b'
    cases stage with
    | check => exact absurd rfl hstage
    | synchronize | copy | failing => exact Option.some_inj
  have hremoved : ∀ b', s.Referenced b' → ¬s.Removed b' →
      .submitted (.removeBootstrap b') ∉ .submitted (s.request b p) :: s.hostLog := by
    intro b' hreferenced hnot hmem
    rcases List.mem_cons.mp hmem with heq | hmem
    · obtain ⟨rfl, hfree⟩ := not_referenced_of_request hworking (HostEvent.submitted.inj heq).symm
      exact hfree hreferenced
    · exact hnot hmem
  exact {
    kernels := by
      intro k
      rcases h.kernels k with hempty | ⟨b', a, hloaded, hb, hk, hnot⟩
      · exact .inl hempty
      · exact .inr ⟨b', a, hloaded, hb, hk, hremoved b' (.inr ⟨k, by rw [hloaded]; rfl⟩) hnot⟩
    owned := by
      intro b' hb'
      have howned : (s.bootstraps b').owned = true := (owned_setHealthy s b false b').symm.trans hb'
      exact ⟨(h.owned b' howned).1, hremoved b' (.inl howned) (h.owned b' howned).2⟩
    at_ := ⟨working_congr (s := s) rfl rfl (owned_setHealthy s b false) rfl hworking, fun hcheck => absurd hcheck hstage⟩
    logged := by
      intro event hevent
      rcases List.mem_cons.mp hevent with rfl | hevent
      · show (s.request b p).bootstrap < s.numBootstraps
        rw [bootstrap_request]
        exact h.lt_of_working hworking
      · exact h.logged event hevent
    healthy := by
      intro b'
      show ((s.setHealthy b false).bootstraps b').loaderHealthy = false ↔
        .failed b' ∈ .submitted (s.request b p) :: s.hostLog ∨ (Pc.executing stage b p).inFlight = some b'
      rw [bootstraps_setHealthy, hflight]
      by_cases heq : b' = b
      · simp [heq]
      · have hother := h.healthy b'
        rw [hpc] at hother
        simp only [heq, if_false, Ne.symm heq, or_false, List.mem_cons, reduceCtorEq, false_or]
        simpa [Pc.inFlight, State.Failed] using hother
    clean := by
      intro b' hb'
      obtain rfl := (hflight b').mp hb'
      intro hmem
      rcases List.mem_cons.mp hmem with heq | hmem
      · simp at heq
      · exact hfailed hmem
    orderly := by
      show _ ∉ _ ∧ (_ → _ ∉ _) ∧ _
      rw [bootstrap_request]
      exact ⟨hcheck rfl, fun _ => hfailed, h.orderly⟩ }

theorem HostInv.copy (h : HostInv s) (hpc : s.pc = .executing .copy b p) (result : Option LoaderResult) :
    HostInv ((s.setHealthy b true).goto (.concluding b p result)) where
  kernels := h.kernels
  owned b' hb' := h.owned b' ((owned_setHealthy s b true b').symm.trans hb')
  at_ := working_congr (s := s) rfl rfl (owned_setHealthy s b true) rfl (h.executing hpc).1
  logged := h.logged
  healthy b' := by
    have hclean := h.clean b (by rw [hpc]; rfl)
    have hother := h.healthy b'
    rw [hpc] at hother
    show ((s.setHealthy b true).bootstraps b').loaderHealthy = false ↔ s.Failed b' ∨ none = some b'
    rw [bootstraps_setHealthy]
    by_cases heq : b' = b
    · subst heq
      simp [hclean]
    · rw [if_neg heq]
      simpa [Pc.inFlight, Ne.symm heq] using hother
  clean := by simp [State.goto, Pc.inFlight]
  orderly := h.orderly

theorem HostInv.fail (h : HostInv s) {stage : Stage} (hpc : s.pc = .executing stage b p) (hstage : stage ≠ .check) :
    HostInv { s with hostLog := .failed b :: s.hostLog, pc := .concluding b p none } := by
  have hflight : ∀ b', s.pc.inFlight = some b' ↔ b = b' := by
    intro b'
    rw [hpc]
    cases stage with
    | check => exact absurd rfl hstage
    | synchronize | copy | failing => exact Option.some_inj
  have hremoved : ∀ b', .submitted (.removeBootstrap b') ∈ HostEvent.failed b :: s.hostLog ↔ s.Removed b' := by
    simp [State.Removed]
  exact {
    kernels := by
      intro k
      rcases h.kernels k with hempty | ⟨b', a, hloaded, hb, hk, hnot⟩
      · exact .inl hempty
      · exact .inr ⟨b', a, hloaded, hb, hk, fun hmem => hnot ((hremoved b').mp hmem)⟩
    owned := fun b' hb' => ⟨(h.owned b' hb').1, fun hmem => (h.owned b' hb').2 ((hremoved b').mp hmem)⟩
    at_ := working_congr (s := s) rfl rfl (fun _ => rfl) rfl (h.executing hpc).1
    logged := by
      intro event hevent
      rcases List.mem_cons.mp hevent with rfl | hevent
      · exact h.lt_of_working (h.executing hpc).1
      · exact h.logged event hevent
    healthy := by
      intro b'
      show (s.bootstraps b').loaderHealthy = false ↔ .failed b' ∈ HostEvent.failed b :: s.hostLog ∨ none = some b'
      rw [h.healthy b', hflight]
      simp only [List.mem_cons, HostEvent.failed.injEq, reduceCtorEq, or_false, State.Failed]
      exact ⟨fun hcase => hcase.symm.imp Eq.symm id, fun hcase => hcase.symm.imp id Eq.symm⟩
    clean := by simp [Pc.inFlight]
    orderly := h.orderly }

/-- A step outside `execute` that changes only the kernels and the references. -/
theorem HostInv.settle (h : HostInv s) (hlog : t.hostLog = s.hostLog) (hnum : t.numBootstraps = s.numBootstraps)
    (hhealthy : ∀ b, (t.bootstraps b).loaderHealthy = (s.bootstraps b).loaderHealthy)
    (hflight : s.pc.inFlight = none) (hflight' : t.pc.inFlight = none)
    (hkernels : ∀ k, (t.kernels k).Empty ∨
      ∃ b a, t.kernels k = .loaded b a ∧ b < s.numBootstraps ∧ k < t.numKernels ∧ ¬s.Removed b)
    (howned : ∀ b, (t.bootstraps b).owned = true → (s.bootstraps b).owned = true) (hat : t.HostAt) : HostInv t := by
  have hremoved : ∀ b, t.Removed b ↔ s.Removed b := fun b => by rw [State.Removed, hlog, State.Removed]
  have hfailed : ∀ b, t.Failed b ↔ s.Failed b := fun b => by rw [State.Failed, hlog, State.Failed]
  exact {
    kernels := by
      intro k
      simp only [hremoved, hnum]
      exact hkernels k
    owned := by
      intro b hb
      rw [hremoved, hnum]
      exact h.owned b (howned b hb)
    at_ := hat
    logged := by
      rw [hlog, hnum]
      exact h.logged
    healthy := by
      intro b
      rw [hhealthy, hfailed, hflight', ← hflight]
      exact h.healthy b
    clean := by simp [hflight']
    orderly := hlog ▸ h.orderly }

/-- One kernel changes. -/
theorem HostInv.kernels_set (h : HostInv s) {kernel : HostKernel}
    (hkernel : kernel.Empty ∨ ∃ b a, kernel = .loaded b a ∧ b < s.numBootstraps ∧ k < s.numKernels ∧ ¬s.Removed b)
    (k' : Nat) : ((s.setKernel k kernel).kernels k').Empty ∨
      ∃ b a, (s.setKernel k kernel).kernels k' = .loaded b a ∧
        b < s.numBootstraps ∧ k' < s.numKernels ∧ ¬s.Removed b := by
  rw [kernels_setKernel]
  by_cases heq : k' = k
  · rw [if_pos heq, heq]
    exact hkernel
  · rw [if_neg heq]
    exact h.kernels k'

theorem HostInv.loaded (h : HostInv s) {result : Option LoaderResult} (hpc : s.pc = .concluding b (.load k) result)
    (module : BitVec 64) : HostInv ((s.setKernel k (.loaded b module)).goto .idle) := by
  obtain ⟨howned, -, hk⟩ := h.concluding hpc
  obtain ⟨hb, hremoved⟩ := h.owned b howned
  have hkernel : (HostKernel.loaded b module).Empty ∨ ∃ b' a, HostKernel.loaded b module = .loaded b' a ∧
      b' < s.numBootstraps ∧ k < s.numKernels ∧ ¬s.Removed b' := .inr ⟨b, module, rfl, hb, hk, hremoved⟩
  exact h.settle rfl rfl (fun _ => rfl) (by rw [hpc]; rfl) rfl (h.kernels_set hkernel) (fun _ howned => howned) trivial

theorem HostInv.unloaded (h : HostInv s) {result : Option LoaderResult}
    (hpc : s.pc = .concluding b (.unload k) result) :
    HostInv ((s.setKernel k (s.kernels k).unloaded).goto (.releasing b)) := by
  obtain ⟨a, hloaded⟩ := h.concluding hpc
  obtain ⟨-, -, hreleased⟩ := h.loaded_of_bootstrap (k := k) (b := b) (by rw [hloaded]; rfl)
  have hkernels := h.kernels_set (k := k) (.inl (s.kernels k).empty_unloaded)
  exact h.settle rfl rfl (fun _ => rfl) (by rw [hpc]; rfl) rfl hkernels (fun _ howned => howned) hreleased

theorem HostInv.drop (h : HostInv s) (hpc : s.pc = .idle) (howned : (s.bootstraps b).owned = true) :
    HostInv ((s.setOwned b false).goto (.releasing b)) := by
  refine h.settle rfl rfl (loaderHealthy_setOwned s b false) (by rw [hpc]; rfl) rfl h.kernels (fun b' hb' => ?_)
    (h.owned b howned)
  have hb'' : ((s.setOwned b false).bootstraps b').owned = true := hb'
  rw [bootstraps_setOwned] at hb''
  split at hb''
  · simp at hb''
  · exact hb''

theorem HostInv.step (h : HostInv s) (hstep : HostStep s t) : HostInv t := by
  cases hstep with
  | construct hpc => exact h.construct hpc
  | load hpc howned => exact h.load hpc howned
  | launch stream queued hpc hhandle => exact h.launch hpc hhandle (.user stream) _ queued
  | @unload k b hpc hmodule hbootstrap =>
      obtain ⟨a, hloaded, -⟩ := h.loaded_of_bootstrap hbootstrap
      exact h.goto (by rw [hpc]; rfl) ⟨a, hloaded⟩
  | @drain k b hpc hdone =>
      obtain ⟨a, hloaded⟩ := h.draining hpc
      have hremoved := (h.loaded_of_bootstrap (k := k) (b := b) (by rw [hloaded]; rfl)).choose_spec.2.2
      exact h.goto (by rw [hpc]; rfl) ⟨⟨a, hloaded⟩, fun _ => hremoved⟩
  | drainFails hpc => exact h.goto (by rw [hpc]; rfl) (h.draining hpc)
  | unhealthy hpc hhealthy => exact h.goto (by rw [hpc]; rfl) (h.executing hpc).1
  | @submit b p accepted queued hpc hhealthy hqueued =>
      exact h.submit hpc hhealthy (by cases accepted <;> simp) queued
  | synchronize hpc hdone => exact h.goto (by rw [hpc]; rfl) ⟨(h.executing hpc).1, by simp⟩
  | copy hpc => exact h.copy hpc _
  | fail hpc hstage => exact h.fail hpc hstage
  | loaded hpc hstatus => exact h.loaded hpc _
  | loadThrows hpc hstatus => exact h.goto (by rw [hpc]; rfl) trivial
  | unloaded hpc => exact h.unloaded hpc
  | drop hpc howned => exact h.drop hpc howned
  | keep hpc hreferenced => exact h.goto (by rw [hpc]; rfl) trivial
  | release hpc hreferenced =>
      obtain ⟨hb, hremoved⟩ := h.releasing hpc
      exact h.goto (by rw [hpc]; rfl) ⟨⟨hb, hreferenced⟩, fun _ => hremoved⟩
  | removed hpc => exact h.goto (by rw [hpc]; rfl) trivial

end

end DeepJit.Ascend.Aicpu
