import DeepJit.Cache.Disk

/-!
# Requests

`Runtime::compile_impl` and the bootstrap's `build_loader`. Both work through the roots: they obtain
an entry, build or load in it, and after an error go on behind the root of that entry. The loop is
one definition over the work that is tried in an entry.
-/

namespace DeepJit

/-! ### The steps of a backend -/

/-- A step of `Backend::compile` or `Backend::load`: an I/O task, an external command whose output
is then checked, or a call that is neither. -/
inductive Step where
  | io
  | command (text : Bytes) (verdict : Site → Bytes → Option Bytes)
  | call

structure StepOutcome where
  io : IoTask Unit
  command : CommandOutcome
  call : Option Bytes := none
  site : Site := {}

/-- The part of `Backend` that a request uses. `ρ` holds the source and the options of a request. -/
structure Backend (ρ : Type) where
  compile : ρ → Place → List Step
  /-- `requires { backend.load(entry.path, env, disk_cache); }` -/
  usesDiskCache : Bool
  load : Place → List Step

def failure (what : Option Bytes) : Except Exn Unit :=
  match what with
  | none => .ok ()
  | some what => .error (.other what)

section

variable (fallbackDisabled : Bool) (client : Client)

/-- Log an operation with its result. -/
def logged {α : Type} (operation : Operation) (place : Place) (result : Except Exn α)
    (s : Session) :
    Except Exn α × Session :=
  (result, s.record (.operation client operation place (.of result)))

def runStep (place : Place) (o : StepOutcome) (s : Session) : Step → Except Exn Unit × Session
  | .io => logged client .io place (runInIothread fallbackDisabled o.io) s
  | .call => logged client .call place (failure o.call) s
  | .command text verdict =>
      match callExternalCommand text o.command with
      | .error error =>
          (.error error, s.record (.operation client .command place
            (if o.command.isExpired then .late else .failed error.what)))
      | .ok output =>
          logged client .call place (failure (verdict o.site output))
            (s.record (.operation client .command place .done))

def runSteps (place : Place) (o : Nat → StepOutcome) :
    List Step → Nat → Session → Except Exn Unit × Session
  | [], _, s => (.ok (), s)
  | step :: rest, k, s =>
      match runStep fallbackDisabled client place (o k) s step with
      | (.error error, s) => (.error error, s)
      | (.ok _, s) => runSteps place o rest (k + 1) s

/-- What happens in an entry: its steps by number, the commit and the cleanup. -/
structure WorkOutcomes where
  steps : Nat → StepOutcome
  commit : IoTask Publication
  cleanup : IoTask Unit

/-- The steps of a build in an entry, and its publication. -/
def build {cache : DiskCache} {first : Nat} (o : WorkOutcomes) (steps : List Step)
    (entry : DiskCacheEntry cache first) (s : Session) :
    Except Exn Unit × DiskCacheEntry cache first × Session :=
  match runSteps fallbackDisabled client entry.path o.steps steps 0 s with
  | (.error error, s) => (.error error, entry, s)
  | (.ok _, s) => entry.commit fallbackDisabled client o.commit s

end

/-! ### The loop over the roots -/

/-- Work that is tried in an entry, which it may commit. -/
abbrev Work (cache : DiskCache) (α : Type) :=
  (first : Nat) → DiskCacheEntry cache first → Session →
    Except Exn α × DiskCacheEntry cache first × Session

/-- The condition under which the handlers of both loops abandon the entry. -/
def leavesWork (error : Exn) : Bool := error.isTimeout || mentionsCommandTimeout error.what

section

variable {α : Type} (cache : DiskCache) (fallbackDisabled : Bool) (client : Client)
  (tag digest : Bytes)
  (o : Nat → EntryOutcomes) (cleanup : Nat → IoTask Unit) (work : Work cache α)

/-- The `for (;;)` loop of `compile_impl` and `build_loader`. Every round starts behind the root of
the one before, so the number of roots bounds the rounds. -/
def retry : (fuel first : Nat) → first < cache.paths.length → cache.paths.length ≤ first + fuel → Session →
    Except Exn α × Session
  | 0, first, hfirst, hfuel, _ => absurd hfuel (by omega)
  | fuel + 1, first, _, hfuel, s =>
      match cache.entry fallbackDisabled client tag digest (o first) first s with
      | (.error error, s) => (.error error, s)
      | (.ok entry, s) =>
          match work first entry s with
          | (.ok value, entry, s) => (.ok value, entry.destroy fallbackDisabled client (cleanup entry.root) s)
          | (.error error, entry, s) =>
              if fallbackDisabled then
                (.error error, entry.destroy fallbackDisabled client (cleanup entry.root) s)
              else
                let s := (entry.abandon (leavesWork error)).destroy fallbackDisabled client (cleanup entry.root)
                  (s.reportError entry.root error)
                if hlast : entry.root.val + 1 = cache.paths.length then (.error error, s)
                else
                  retry fuel (entry.root + 1) (by have hroot := entry.root.2; omega)
                    (by have hroot := entry.root.2; omega) s

/-- The loop from the first root. -/
def run (s : Session) : Except Exn α × Session :=
  retry cache fallbackDisabled client tag digest o cleanup work cache.paths.length 0
    (List.length_pos_iff.mpr cache.paths_ne) (by omega) s

end

/-! ### `build_loader` -/

/-- The version command and the checks before the loop, then entries by first root and the work in
them by root. -/
structure LoaderOutcomes where
  prepare : Option Bytes := none
  entry : Nat → EntryOutcomes
  work : Nat → WorkOutcomes

structure Loader where
  digest : Bytes
  command : Place → Bytes

section

variable (cache : DiskCache) (fallbackDisabled : Bool) (loader : Loader)

def loaderWork (o : LoaderOutcomes) : Work cache Place := fun _ entry s =>
  if entry.hit then
    match runSteps fallbackDisabled .loader entry.path (o.work entry.root).steps [.io] 0 s with
    | (.error error, s) => (.error error, entry, s)
    | (.ok _, s) => (.ok entry.path, entry, s)
  else
    match build fallbackDisabled .loader (o.work entry.root)
        [.io, .command (loader.command entry.path) fun _ _ => none, .io] entry s with
    | (.error error, entry, s) => (.error error, entry, s)
    | (.ok _, entry, s) => (.ok entry.path, entry, s)

/-- `aicpu::build_loader`, up to the name of the library in the returned directory. -/
def buildLoader (o : LoaderOutcomes) (s : Session) : Except Exn Place × Session :=
  match o.prepare with
  | some what => (.error (.other what), s)
  | none =>
      run cache fallbackDisabled .loader (bytes "aicpu_bootstrap") loader.digest o.entry
        (fun root => (o.work root).cleanup) (loaderWork cache fallbackDisabled loader o) s

end

/-! ### `compile_impl` -/

/-- The constructor of `AicpuBootstrap`: the driver calls before and after `build_loader`, with the
deployment. -/
structure BootstrapOutcomes where
  before : Option Bytes := none
  loader : LoaderOutcomes
  after : Option Bytes := none

structure AttemptOutcomes extends WorkOutcomes where
  probe : IoTask Bool
  bootstrap : BootstrapOutcomes
  load : Nat → StepOutcome

structure RequestOutcomes where
  entry : Nat → EntryOutcomes
  attempt : Nat → AttemptOutcomes

section

variable {ρ : Type} (cache : DiskCache) (fallbackDisabled : Bool) (loader : Loader)
  (backend : Backend ρ)

/-- `std::make_shared<ascend::AicpuBootstrap>(...)`. -/
def makeBootstrap (o : BootstrapOutcomes) (s : Session) : Except Exn Unit × Session :=
  match o.before with
  | some what => (.error (.other what), s)
  | none =>
      match buildLoader cache fallbackDisabled loader o.loader s with
      | (.error error, s) => (.error error, s)
      | (.ok _, s) =>
          match o.after with
          | some what => (.error (.other what), s)
          | none => (.ok (), { s with bootstrapped := true })

/-- `Backend::load`. The overload with a disk cache probes for an AICPU kernel and bootstraps for
the first one. -/
def load (place : Place) (o : AttemptOutcomes) (s : Session) : Except Exn Unit × Session :=
  if backend.usesDiskCache then
    match logged .runtime .io place (runInIothread fallbackDisabled o.probe) s with
    | (.error error, s) => (.error error, s)
    | (.ok isAicpu, s) =>
        if !s.bootstrapped && isAicpu then
          match makeBootstrap cache fallbackDisabled loader o.bootstrap s with
          | (.error error, s) => logged .runtime .bootstrap place (.error error) s
          | (.ok _, s) =>
              runSteps fallbackDisabled .runtime place o.load (backend.load place) 0
                (s.record (.operation .runtime .bootstrap place .done))
        else runSteps fallbackDisabled .runtime place o.load (backend.load place) 0 s
  else runSteps fallbackDisabled .runtime place o.load (backend.load place) 0 s

/-- A miss is built and published. -/
def buildEntry {cache : DiskCache} {first : Nat} (input : ρ) (o : RequestOutcomes)
    (entry : DiskCacheEntry cache first) (s : Session) :
    Except Exn Unit × DiskCacheEntry cache first × Session :=
  if entry.hit then (.ok (), entry, s)
  else build fallbackDisabled .runtime (o.attempt entry.root).toWorkOutcomes (backend.compile input entry.path) entry s

def requestWork (loads : Bool) (input : ρ) (o : RequestOutcomes) : Work cache Place :=
  fun _ entry s =>
  match buildEntry fallbackDisabled backend input o entry s with
  | (.error error, entry, s) => (.error error, entry, s)
  | (.ok _, entry, s) =>
      if loads then
        match load cache fallbackDisabled loader backend entry.path (o.attempt entry.root) s with
        | (.error error, s) => (.error error, entry, s)
        | (.ok _, s) => (.ok entry.path, entry, s)
      else (.ok entry.path, entry, s)

/-- `Runtime::compile_impl<loads>`. The value is the directory that is returned or loaded from. -/
def compileImpl (loads : Bool) (name key : Bytes) (input : ρ) (o : RequestOutcomes) (s : Session) :
    Except Exn Place × Session :=
  run cache fallbackDisabled .runtime name key o.entry (fun root => (o.attempt root).cleanup)
    (requestWork cache fallbackDisabled loader backend loads input o) s

end

/-! ### `Runtime` -/

/-- A call of `Runtime::compile` or `compile_without_load` outside a dry run, with its cache key. -/
structure Request (ρ : Type) where
  loads : Bool
  name : Bytes
  key : Bytes
  input : ρ
  outcomes : RequestOutcomes

/-- The members of `Runtime` that requests change. A loaded kernel stands for itself by its
directory. -/
structure RuntimeState where
  session : Session := {}
  memCache : Bytes → Option Place := fun _ => none

/-- `MemCache::get_or_create`. -/
def getOrCreate (t : RuntimeState) (key : Bytes) (factory : Session → Except Exn Place × Session) :
    Except Exn Place × RuntimeState :=
  match t.memCache key with
  | some kernel => (.ok kernel, t)
  | none =>
      match factory t.session with
      | (.error error, s) => (.error error, { t with session := s })
      | (.ok kernel, s) =>
          (.ok kernel, { session := s, memCache := Function.update t.memCache key (some kernel) })

section

variable {ρ : Type} (cache : DiskCache) (fallbackDisabled : Bool) (loader : Loader)
  (backend : Backend ρ)

def serve (request : Request ρ) (t : RuntimeState) : Except Exn Place × RuntimeState :=
  let factory := compileImpl cache fallbackDisabled loader backend request.loads request.name request.key
    request.input request.outcomes
  if request.loads then getOrCreate t request.key factory
  else
    match factory t.session with
    | (result, s) => (result, { t with session := s })

/-- The requests of one runtime, one after the other. -/
def serveAll (requests : List (Request ρ)) (t : RuntimeState) : RuntimeState :=
  requests.foldl (fun t request => (serve cache fallbackDisabled loader backend request t).2) t

end

/-! ### Outcomes without faults

The outcomes in which every operation succeeds in time, as a base for concrete faults. -/

def IoTask.calm {α : Type} (value : α) : IoTask α := { result := .ok value }

def StepOutcome.calm : StepOutcome := { io := .calm (), command := .exited 0 [] {} }

/-- Entries of a cache that does or does not hold the key. -/
def EntryOutcomes.calm (hit : Bool) : EntryOutcomes where
  lookup := fun _ => .calm hit
  setup := fun _ => { task := .calm false }

def WorkOutcomes.calm : WorkOutcomes where
  steps := fun _ => .calm
  commit := .calm .published
  cleanup := .calm ()

def LoaderOutcomes.calm : LoaderOutcomes where
  entry := fun _ => .calm false
  work := fun _ => .calm

def AttemptOutcomes.calm : AttemptOutcomes where
  toWorkOutcomes := .calm
  probe := .calm false
  bootstrap := { loader := .calm }
  load := fun _ => .calm

def RequestOutcomes.calm (hit : Bool) : RequestOutcomes where
  entry := fun _ => .calm hit
  attempt := fun _ => .calm

/-- A backend that compiles and loads with one I/O task, and bootstraps for AICPU kernels. -/
def Backend.sample : Backend Unit where
  compile := fun _ _ => [.io]
  usesDiskCache := true
  load := fun _ => [.io]

def Loader.sample : Loader where
  digest := bytes "0"
  command := fun _ => bytes "g++"

def Request.sample (loads : Bool) (outcomes : RequestOutcomes) : Request Unit where
  loads := loads
  name := bytes "kernel"
  key := bytes "0"
  input := ()
  outcomes := outcomes

end DeepJit
