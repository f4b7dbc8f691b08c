import DeepJit.Backend.Ascend.Arguments
import DeepJit.Library.Transition
import Mathlib.Logic.Function.Basic

/-!
# AICPU modules

The host and the device of one context, as a transition system. The host runs one operation after
the other (`Kernel::load`, `launch` and `unload`, the construction and the last release of an
`AicpuBootstrap`), one ACL call at a time, and any ACL call may fail. The device runs the queued
requests, in order on each stream, at any time. A launch that fails may have queued its request.
-/

namespace DeepJit.Ascend.Aicpu

/-! ### The device -/

/-- The streams that launches name, and the `loader_stream` of each bootstrap. -/
inductive Stream where
  | user (n : Nat)
  | loader (bootstrap : Nat)
deriving DecidableEq

/-- A packet for the loader of a bootstrap, with the kernel that it is sent for. -/
inductive Request where
  | load (bootstrap kernel : Nat)
  | invoke (bootstrap kernel : Nat) (module : BitVec 64)
  | unload (bootstrap kernel : Nat) (module : BitVec 64)
  | removeBootstrap (bootstrap : Nat)
deriving DecidableEq

def Request.header : Request → RequestHeader
  | .load .. => { operation := .load, module := 0 }
  | .invoke _ _ module => { operation := .invoke, module := module }
  | .unload _ _ module => { operation := .unload, module := module }
  | .removeBootstrap _ => { operation := .removeBootstrap, module := 0 }

def Request.bootstrap : Request → Nat
  | .load b _ | .invoke b _ _ | .unload b _ _ | .removeBootstrap b => b

/-- The members of `LoaderResult` that decide. -/
structure LoaderResult where
  module : BitVec 64 := 0
  status : Int := 0

/-- What the loader did with a `Module*`, and for which kernel. -/
inductive DeviceEvent where
  | loaded (module : BitVec 64) (kernel : Nat)
  | invoked (module : BitVec 64) (kernel : Nat)
  | deleted (module : BitVec 64) (kernel : Nat)
deriving DecidableEq

/-- The kernel whose module is at an address, after a log that starts with the latest event. -/
def holder : List DeviceEvent → BitVec 64 → Option Nat
  | [], _ => none
  | .loaded module k :: log, a => if a = module then some k else holder log a
  | .invoked .. :: log, a => holder log a
  | .deleted module _ :: log, a => if a = module then none else holder log a

/-! ### The host -/

/-- The members of an AICPU `Kernel`. A loader handle is named by its bootstrap. -/
structure HostKernel extends Kernel where
  aicpuBootstrap : Option Nat := none

namespace HostKernel

/-- The members that `Kernel::load` sets. -/
def loaded (b : Nat) (module : BitVec 64) : HostKernel where
  aicpu := true
  aicpuModule := module
  kernelHandle := some b
  aicpuBootstrap := some b

/-- The end of `Kernel::unload`. -/
def unloaded (kernel : HostKernel) : HostKernel :=
  { kernel with kernelHandle := none, aicpuModule := 0, aicpuBootstrap := none }

end HostKernel

structure Bootstrap where
  /-- A reference that is not a kernel's, such as that of the Runtime. -/
  owned : Bool := false
  loaderHealthy : Bool := true

/-- What a call of `execute` is for. -/
inductive Purpose where
  | load (kernel : Nat)
  | unload (kernel : Nat)
  | remove
deriving DecidableEq

/-- Where a call of `execute` is. -/
inductive Stage where
  /-- Before the check of `loader_healthy`. -/
  | check
  | synchronize
  | copy
  /-- The launch has failed. -/
  | failing
deriving DecidableEq

inductive Pc where
  | idle
  /-- In `AicpuBootstrap::unload`, before `aclrtSynchronizeDevice`. -/
  | draining (kernel bootstrap : Nat)
  | executing (stage : Stage) (bootstrap : Nat) (purpose : Purpose)
  /-- After `execute`, which returned a result or threw. -/
  | concluding (bootstrap : Nat) (purpose : Purpose) (result : Option LoaderResult)
  /-- A reference to the bootstrap was dropped. -/
  | releasing (bootstrap : Nat)

inductive HostEvent where
  | submitted (request : Request)
  /-- An ACL call in `execute` failed. -/
  | failed (bootstrap : Nat)
deriving DecidableEq

def HostEvent.bootstrap : HostEvent → Nat
  | .submitted request => request.bootstrap
  | .failed b => b

structure State where
  kernels : Nat → HostKernel := fun _ => {}
  numKernels : Nat := 0
  bootstraps : Nat → Bootstrap := fun _ => {}
  numBootstraps : Nat := 0
  pc : Pc := .idle
  queues : Stream → List Request := fun _ => []
  /-- The `result_buffer` of each bootstrap. -/
  results : Nat → LoaderResult := fun _ => {}
  hostLog : List HostEvent := []
  deviceLog : List DeviceEvent := []

namespace State

def goto (s : State) (pc : Pc) : State := { s with pc := pc }

def setKernel (s : State) (k : Nat) (kernel : HostKernel) : State :=
  { s with kernels := Function.update s.kernels k kernel }

def setOwned (s : State) (b : Nat) (owned : Bool) : State :=
  { s with bootstraps := Function.update s.bootstraps b { s.bootstraps b with owned := owned } }

def setHealthy (s : State) (b : Nat) (healthy : Bool) : State :=
  { s with bootstraps := Function.update s.bootstraps b { s.bootstraps b with loaderHealthy := healthy } }

/-- `aclrtLaunchKernelWithHostArgs`. -/
def submit (s : State) (stream : Stream) (request : Request) (queued : Bool) : State :=
  { s with
    hostLog := .submitted request :: s.hostLog
    queues :=
      if queued then Function.update s.queues stream (s.queues stream ++ [request]) else s.queues }

def Referenced (s : State) (b : Nat) : Prop :=
  (s.bootstraps b).owned = true ∨ ∃ k, (s.kernels k).aicpuBootstrap = some b

/-- The request of a call of `execute`. -/
def request (s : State) (b : Nat) : Purpose → Request
  | .load k => .load b k
  | .unload k => .unload b k (s.kernels k).aicpuModule
  | .remove => .removeBootstrap b

end State

inductive HostStep : State → State → Prop where
  | construct {s : State} (hpc : s.pc = .idle) :
      HostStep s { s with
        bootstraps := Function.update s.bootstraps s.numBootstraps { owned := true }
        numBootstraps := s.numBootstraps + 1 }
  /-- `Kernel::load` of a new kernel. -/
  | load {s : State} {b : Nat} (hpc : s.pc = .idle) (howned : (s.bootstraps b).owned = true) :
      HostStep s { s with numKernels := s.numKernels + 1, pc := .executing .check b (.load s.numKernels) }
  | launch {s : State} {k b : Nat} (stream : Nat) (queued : Bool) (hpc : s.pc = .idle)
      (hhandle : (s.kernels k).kernelHandle = some b) :
      HostStep s (s.submit (.user stream) (.invoke b k (s.kernels k).aicpuModule) queued)
  /-- `Kernel::unload`, by the last owner or before. -/
  | unload {s : State} {k b : Nat} (hpc : s.pc = .idle) (hmodule : (s.kernels k).aicpuModule ≠ 0)
      (hbootstrap : (s.kernels k).aicpuBootstrap = some b) : HostStep s (s.goto (.draining k b))
  | drain {s : State} {k b : Nat} (hpc : s.pc = .draining k b) (hdone : ∀ stream, s.queues stream = []) :
      HostStep s (s.goto (.executing .check b (.unload k)))
  | drainFails {s : State} {k b : Nat} (hpc : s.pc = .draining k b) :
      HostStep s (s.goto (.concluding b (.unload k) none))
  | unhealthy {s : State} {b : Nat} {p : Purpose} (hpc : s.pc = .executing .check b p)
      (hhealthy : (s.bootstraps b).loaderHealthy = false) : HostStep s (s.goto (.concluding b p none))
  /-- The launch of `execute`. One that is accepted is queued. -/
  | submit {s : State} {b : Nat} {p : Purpose} {accepted queued : Bool} (hpc : s.pc = .executing .check b p)
      (hhealthy : (s.bootstraps b).loaderHealthy = true) (hqueued : accepted = true → queued = true) :
      HostStep s (((s.setHealthy b false).submit (.loader b) (s.request b p) queued).goto
        (.executing (if accepted then .synchronize else .failing) b p))
  | synchronize {s : State} {b : Nat} {p : Purpose} (hpc : s.pc = .executing .synchronize b p)
      (hdone : s.queues (.loader b) = []) : HostStep s (s.goto (.executing .copy b p))
  | copy {s : State} {b : Nat} {p : Purpose} (hpc : s.pc = .executing .copy b p) :
      HostStep s ((s.setHealthy b true).goto (.concluding b p (some (s.results b))))
  /-- The launch, `aclrtSynchronizeStream` or `aclrtMemcpy` fails. -/
  | fail {s : State} {stage : Stage} {b : Nat} {p : Purpose} (hpc : s.pc = .executing stage b p)
      (hstage : stage ≠ .check) :
      HostStep s { s with hostLog := .failed b :: s.hostLog, pc := .concluding b p none }
  | loaded {s : State} {k b : Nat} {result : LoaderResult} (hpc : s.pc = .concluding b (.load k) (some result))
      (hstatus : result.status = 0) :
      HostStep s ((s.setKernel k (.loaded b result.module)).goto .idle)
  | loadThrows {s : State} {k b : Nat} {result : Option LoaderResult} (hpc : s.pc = .concluding b (.load k) result)
      (hstatus : ∀ r, result = some r → r.status ≠ 0) : HostStep s (s.goto .idle)
  /-- `Kernel::unload` ignores the result. -/
  | unloaded {s : State} {k b : Nat} {result : Option LoaderResult} (hpc : s.pc = .concluding b (.unload k) result) :
      HostStep s ((s.setKernel k (s.kernels k).unloaded).goto (.releasing b))
  /-- The destruction of a Runtime. -/
  | drop {s : State} {b : Nat} (hpc : s.pc = .idle) (howned : (s.bootstraps b).owned = true) :
      HostStep s ((s.setOwned b false).goto (.releasing b))
  | keep {s : State} {b : Nat} (hpc : s.pc = .releasing b) (hreferenced : s.Referenced b) : HostStep s (s.goto .idle)
  /-- `AicpuBootstrap::release`. -/
  | release {s : State} {b : Nat} (hpc : s.pc = .releasing b) (hreferenced : ¬s.Referenced b) :
      HostStep s (s.goto (.executing .check b .remove))
  | removed {s : State} {b : Nat} {result : Option LoaderResult} (hpc : s.pc = .concluding b .remove result) :
      HostStep s (s.goto .idle)

/-- `deep_jit_aicpu_loader_v1`, for the first request of a stream. -/
inductive DeviceStep : State → State → Prop where
  | load {s : State} {stream : Stream} {b k : Nat} {rest : List Request} {module : BitVec 64}
      (hqueue : s.queues stream = .load b k :: rest) (hnew : holder s.deviceLog module = none) (hmodule : module ≠ 0) :
      DeviceStep s { s with
        queues := Function.update s.queues stream rest
        results := Function.update s.results b { module := module }
        deviceLog := .loaded module k :: s.deviceLog }
  | loadThrows {s : State} {stream : Stream} {b k : Nat} {rest : List Request} {status : Int}
      (hqueue : s.queues stream = .load b k :: rest) (hstatus : status ≠ 0) :
      DeviceStep s { s with
        queues := Function.update s.queues stream rest
        results := Function.update s.results b { status := status } }
  | invoke {s : State} {stream : Stream} {b k : Nat} {module : BitVec 64} {rest : List Request}
      (hqueue : s.queues stream = .invoke b k module :: rest) :
      DeviceStep s { s with
        queues := Function.update s.queues stream rest
        deviceLog := .invoked module k :: s.deviceLog }
  | unload {s : State} {stream : Stream} {b k : Nat} {module : BitVec 64} {rest : List Request}
      (hqueue : s.queues stream = .unload b k module :: rest) :
      DeviceStep s { s with
        queues := Function.update s.queues stream rest
        results := Function.update s.results b {}
        deviceLog := .deleted module k :: s.deviceLog }
  | removeBootstrap {s : State} {stream : Stream} {b : Nat} {rest : List Request} {status : Int}
      (hqueue : s.queues stream = .removeBootstrap b :: rest) :
      DeviceStep s { s with
        queues := Function.update s.queues stream rest
        results := Function.update s.results b { status := status } }

inductive Actor where
  | host
  | device

def loaderSystem : TransitionSystem State Actor where
  init s := s = {}
  step
    | s, .host, t => HostStep s t
    | s, .device, t => DeviceStep s t

/-! ### What should hold -/

/-- Whatever the loader invoked or deleted was the module of the kernel that the request was sent
for, loaded before and not deleted since. -/
def Sound : List DeviceEvent → Prop
  | [] => True
  | .loaded .. :: log => Sound log
  | .invoked module k :: log | .deleted module k :: log => holder log module = some k ∧ Sound log

/-- No request was submitted to a bootstrap after its RemoveBootstrap, and only invocations after a
failure in `execute`. -/
def Orderly : List HostEvent → Prop
  | [] => True
  | .failed _ :: log => Orderly log
  | .submitted request :: log =>
      .submitted (.removeBootstrap request.bootstrap) ∉ log ∧
        (request.header.operation ≠ .invoke → .failed request.bootstrap ∉ log) ∧ Orderly log

structure Safe (s : State) : Prop where
  device : Sound s.deviceLog
  host : Orderly s.hostLog
  /-- `execute` goes on unless an ACL call failed in it before, whatever a `LoaderResult` said. -/
  usable : ∀ b p, s.pc = .executing .check b p →
    ((s.bootstraps b).loaderHealthy = true ↔ .failed b ∉ s.hostLog)

end DeepJit.Ascend.Aicpu
