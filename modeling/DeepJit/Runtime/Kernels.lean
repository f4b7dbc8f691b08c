import DeepJit.Basic
import DeepJit.Library.Transition
import Mathlib.Logic.Function.Basic

/-!
# Kernels

The life of a loaded `Kernel` under the Python threads of one process: `MemCache`, the part of
`Runtime::compile` behind the cache key, `Kernel::load`, `launch` and `unload`. Only the GIL guards
the cache, and it is released around compilation, loading and launching. A kernel is freed with its
last `shared_ptr`, and its library is unloaded then. Every call of the driver may fail.
-/

namespace DeepJit

/-! ### The cache -/

namespace MemCache

variable {κ ν : Type} [DecidableEq κ]

def find (cache : List (κ × ν)) (key : κ) : Option ν :=
  (cache.find? fun entry => decide (entry.1 = key)).map Prod.snd

/-- `unordered_map::emplace`, which keeps the value that is there. -/
def emplace (cache : List (κ × ν)) (key : κ) (value : ν) : List (κ × ν) :=
  if (find cache key).isSome then cache else cache ++ [(key, value)]

variable {cache : List (κ × ν)} {key : κ} {value : ν}

theorem mem_of_find (h : find cache key = some value) : (key, value) ∈ cache := by
  obtain ⟨entry, hentry, rfl⟩ := Option.map_eq_some_iff.mp h
  have hkey : entry.1 = key := by simpa using List.find?_some hentry
  exact hkey ▸ List.mem_of_find?_eq_some hentry

/-- What is there stays there. -/
theorem find_emplace (h : find cache key = some value) (key' : κ) (value' : ν) :
    find (emplace cache key' value') key = some value := by
  unfold emplace
  split
  · exact h
  · obtain ⟨entry, hentry, hvalue⟩ := Option.map_eq_some_iff.mp h
    rw [find, List.find?_append, hentry, Option.some_or, Option.map_some, hvalue]

end MemCache

namespace Kernels

/-! ### The driver -/

/-- The driver calls on a library that is loaded. -/
inductive Call where
  | getKernelCount
  | enumerateKernels
  | getFunction
  | setAttribute
  | launchKernel
deriving DecidableEq

/-- What the two backends do differently. -/
structure Backend where
  /-- The calls of `Kernel::load` after the library was loaded. -/
  loadCalls : List Call
  LaunchOptions : Type
  launchCalls : LaunchOptions → List Call
  /-- Whether `Kernel::unload` releases the GIL. -/
  unloadReleasesGil : Bool

inductive Event where
  | loaded (library : Nat)
  | called (library : Nat) (call : Call)
  | unloaded (library : Nat)
  /-- The driver refused to unload. -/
  | refused (library : Nat)
deriving DecidableEq

/-- The loaded libraries after a log that starts with the latest event, if every call was made on a
library that was loaded at that time. -/
def replay : List Event → Option (Nat → Bool)
  | [] => some fun _ => false
  | .loaded h :: log => do
      let libraries ← replay log
      if libraries h then none else some (Function.update libraries h true)
  | .called h _ :: log | .refused h :: log => do
      let libraries ← replay log
      if libraries h then some libraries else none
  | .unloaded h :: log => do
      let libraries ← replay log
      if libraries h then some (Function.update libraries h false) else none

/-! ### The threads -/

structure Kernel where
  /-- The cache key that it was built for. -/
  key : Bytes
  libraryHandle : Nat
  /-- The `use_count` of its `shared_ptr`s. -/
  useCount : Nat

inductive Phase where
  /-- Without the GIL, and not in the runtime. -/
  | outside
  /-- With the GIL, and not in the runtime. -/
  | python
  /-- In `compile_impl`. -/
  | compiling (key : Bytes)
  /-- In `Kernel::load` with a library and the calls that are left. -/
  | loading (key : Bytes) (library : Nat) (rest : List Call)
  /-- A call of `Kernel::load` failed. -/
  | discarding (key : Bytes) (library : Nat)
  /-- In `~GilScopedRelease`, before an insertion or before the return to Python. -/
  | acquiring (value : Option (Bytes × Nat))
  /-- Before `cache.emplace`. -/
  | emplacing (key : Bytes) (kernel : Nat)
  | launching (kernel : Nat) (rest : List Call)
  /-- In `~Kernel`. -/
  | unloading (library : Nat)

namespace Phase

variable (backend : Backend)

def holdsGil : Phase → Bool
  | .python | .emplacing .. => true
  | .unloading _ => !backend.unloadReleasesGil
  | _ => false

def library : Phase → Option Nat
  | .loading _ h _ | .discarding _ h | .unloading h => some h
  | _ => none

/-- The kernel that a phase goes on to use, and the key of its request. -/
def value : Phase → Option (Option Bytes × Nat)
  | .acquiring (some (key, k)) | .emplacing key k => some (some key, k)
  | .launching k _ => some (none, k)
  | _ => none

/-- What follows `~GilScopedRelease`. -/
def acquired : Option (Bytes × Nat) → Phase
  | some (key, k) => .emplacing key k
  | none => .python

end Phase

structure State where
  gil : Option Nat := none
  phases : Nat → Phase := fun _ => .outside
  cache : List (Bytes × Nat) := []
  /-- Whether the Runtime is there. -/
  alive : Bool := true
  kernels : Nat → Option Kernel := fun _ => none
  numKernels : Nat := 0
  /-- The `shared_ptr`s outside of the cache, each with its thread. -/
  held : List (Nat × Nat) := []
  libraries : Nat → Bool := fun _ => false
  log : List Event := []

namespace State

def goto (s : State) (t : Nat) (phase : Phase) : State :=
  { s with phases := Function.update s.phases t phase }

def record (s : State) (event : Event) : State := { s with log := event :: s.log }

/-- The end of the driver's `unload`. -/
def unload (s : State) (h : Nat) (done : Bool) : State :=
  if done then { s with libraries := Function.update s.libraries h false, log := .unloaded h :: s.log }
  else s.record (.refused h)

def setUseCount (s : State) (k : Nat) (kernel : Kernel) (useCount : Nat) : State :=
  { s with kernels := Function.update s.kernels k (some { kernel with useCount := useCount }) }

/-- A `shared_ptr` of thread `t` is copied from another one. -/
def copyTo (s : State) (t k : Nat) (kernel : Kernel) : State :=
  { s.setUseCount k kernel (kernel.useCount + 1) with held := (t, k) :: s.held }

/-- `cache.emplace`. -/
def emplace (s : State) (key : Bytes) (k : Nat) (kernel : Kernel) : State :=
  if (MemCache.find s.cache key).isSome then s
  else { s.setUseCount k kernel (kernel.useCount + 1) with cache := MemCache.emplace s.cache key k }

/-- A `shared_ptr` that is not the last one goes. -/
def drop (s : State) (t k : Nat) (kernel : Kernel) : State :=
  { s.setUseCount k kernel (kernel.useCount - 1) with held := s.held.erase (t, k) }

/-- The last `shared_ptr` goes, and `~Kernel` starts. -/
def dropLast (backend : Backend) (s : State) (t k h : Nat) : State :=
  { s with
    gil := if backend.unloadReleasesGil then none else s.gil
    phases := Function.update s.phases t (.unloading h)
    kernels := Function.update s.kernels k none
    held := s.held.erase (t, k) }

end State

/-- One step of a thread. -/
inductive Step (backend : Backend) : State → Nat → State → Prop where
  | acquire {s : State} {t : Nat} (hphase : s.phases t = .outside) (hgil : s.gil = none) :
      Step backend s t { s.goto t .python with gil := some t }
  | release {s : State} {t : Nat} (hphase : s.phases t = .python) :
      Step backend s t { s.goto t .outside with gil := none }
  /-- `get_or_create` finds the key. -/
  | hit {s : State} {t k : Nat} {key : Bytes} {kernel : Kernel} (hphase : s.phases t = .python)
      (halive : s.alive = true) (hfind : MemCache.find s.cache key = some k) (hkernel : s.kernels k = some kernel) :
      Step backend s t (s.copyTo t k kernel)
  | miss {s : State} {t : Nat} {key : Bytes} (hphase : s.phases t = .python) (halive : s.alive = true)
      (hfind : MemCache.find s.cache key = none) : Step backend s t { s.goto t (.compiling key) with gil := none }
  /-- The driver loads a library, and has not given its handle to another one. -/
  | load {s : State} {t h : Nat} {key : Bytes} (hphase : s.phases t = .compiling key)
      (hnew : s.libraries h = false) : Step backend s t { s.goto t (.loading key h backend.loadCalls) with
        libraries := Function.update s.libraries h true
        log := .loaded h :: s.log }
  | call {s : State} {t h : Nat} {key : Bytes} {c : Call} {rest : List Call}
      (hphase : s.phases t = .loading key h (c :: rest)) :
      Step backend s t ((s.record (.called h c)).goto t (.loading key h rest))
  | callFails {s : State} {t h : Nat} {key : Bytes} {c : Call} {rest : List Call}
      (hphase : s.phases t = .loading key h (c :: rest)) :
      Step backend s t ((s.record (.called h c)).goto t (.discarding key h))
  /-- The library of a failed load is unloaded, and `compile_impl` goes on with its loop. -/
  | discard {s : State} {t h : Nat} {key : Bytes} (done : Bool) (hphase : s.phases t = .discarding key h) :
      Step backend s t ((s.unload h done).goto t (.compiling key))
  | loaded {s : State} {t h : Nat} {key : Bytes} (hphase : s.phases t = .loading key h []) :
      Step backend s t { s.goto t (.acquiring (some (key, s.numKernels))) with
        kernels := Function.update s.kernels s.numKernels (some { key := key, libraryHandle := h, useCount := 1 })
        numKernels := s.numKernels + 1
        held := (t, s.numKernels) :: s.held }
  /-- No root is left. -/
  | throws {s : State} {t : Nat} {key : Bytes} (hphase : s.phases t = .compiling key) :
      Step backend s t (s.goto t (.acquiring none))
  | reacquire {s : State} {t : Nat} {value : Option (Bytes × Nat)} (hphase : s.phases t = .acquiring value)
      (hgil : s.gil = none) : Step backend s t { s.goto t (.acquired value) with gil := some t }
  | emplace {s : State} {t k : Nat} {key : Bytes} {kernel : Kernel} (hphase : s.phases t = .emplacing key k)
      (hkernel : s.kernels k = some kernel) : Step backend s t ((s.emplace key k kernel).goto t .python)
  | launch {s : State} {t k : Nat} (options : backend.LaunchOptions) (hphase : s.phases t = .python)
      (hheld : (t, k) ∈ s.held) :
      Step backend s t { s.goto t (.launching k (backend.launchCalls options)) with gil := none }
  | launchCall {s : State} {t k : Nat} {c : Call} {rest : List Call} {kernel : Kernel}
      (hphase : s.phases t = .launching k (c :: rest)) (hkernel : s.kernels k = some kernel) :
      Step backend s t ((s.record (.called kernel.libraryHandle c)).goto t (.launching k rest))
  /-- The launch is through, or a check or the last call failed. -/
  | launched {s : State} {t k : Nat} {rest : List Call} (hphase : s.phases t = .launching k rest) :
      Step backend s t (s.goto t (.acquiring none))
  | share {s : State} {t u k : Nat} {kernel : Kernel} (hphase : s.phases t = .python) (hheld : (t, k) ∈ s.held)
      (hkernel : s.kernels k = some kernel) : Step backend s t (s.copyTo u k kernel)
  | drop {s : State} {t k : Nat} {kernel : Kernel} (hphase : s.phases t = .python) (hheld : (t, k) ∈ s.held)
      (hkernel : s.kernels k = some kernel) (hshared : 1 < kernel.useCount) : Step backend s t (s.drop t k kernel)
  | dropLast {s : State} {t k : Nat} {kernel : Kernel} (hphase : s.phases t = .python) (hheld : (t, k) ∈ s.held)
      (hkernel : s.kernels k = some kernel) (hlast : kernel.useCount = 1) :
      Step backend s t (s.dropLast backend t k kernel.libraryHandle)
  | unload {s : State} {t h : Nat} (done : Bool) (hphase : s.phases t = .unloading h) :
      Step backend s t ((s.unload h done).goto t (if backend.unloadReleasesGil then .acquiring none else .python))
  /-- The Runtime goes, and the thread drops what was cached. -/
  | destroy {s : State} {t : Nat} (hphase : s.phases t = .python) (halive : s.alive = true)
      (hidle : ∀ u, s.phases u = .outside ∨ s.phases u = .python) :
      Step backend s t { s with
        alive := false
        cache := []
        held := s.cache.map (fun entry => (t, entry.2)) ++ s.held }

def system (backend : Backend) : TransitionSystem State Nat where
  init s := s = {}
  step := Step backend

/-! ### What should hold -/

/-- A kernel that may be used: its library is loaded. -/
def State.Usable (s : State) (key : Bytes) (k : Nat) : Prop :=
  ∃ kernel, s.kernels k = some kernel ∧ kernel.key = key ∧ s.libraries kernel.libraryHandle = true

structure Safe (backend : Backend) (s : State) : Prop where
  /-- Only one thread at a time is at the cache. -/
  exclusive : ∀ t u, (s.phases t).holdsGil backend = true → (s.phases u).holdsGil backend = true → t = u
  /-- Every call of the driver was made on a loaded library. -/
  sound : replay s.log = some s.libraries
  cached : ∀ key k, MemCache.find s.cache key = some k → s.Usable key k
  returned : ∀ t key k, s.phases t = .emplacing key k → s.Usable key k
  held : ∀ t k, (t, k) ∈ s.held → ∃ key, s.Usable key k
  /-- A kernel is there for its owners only, and its library is its own. -/
  owned : ∀ k kernel, s.kernels k = some kernel →
    ((∃ key, (key, k) ∈ s.cache) ∨ ∃ t, (t, k) ∈ s.held) ∧
      ∀ k' kernel', s.kernels k' = some kernel' → kernel'.libraryHandle = kernel.libraryHandle → k' = k
  /-- A loaded library belongs to a kernel or to a thread that is about to use or unload it, unless the
  driver refused to unload it. -/
  kept : ∀ h, s.libraries h = true → (∃ k kernel, s.kernels k = some kernel ∧ kernel.libraryHandle = h) ∨
    (∃ t, (s.phases t).library = some h) ∨ .refused h ∈ s.log

end Kernels

end DeepJit
