import DeepJit.Library.Post
import DeepJit.Utils.Outcome
import DeepJit.Utils.Path
import Mathlib.Logic.Function.Basic

/-!
# The disk cache

`DiskCache::entry`, `DiskCacheEntry::commit` and the destructor of an entry, as one client sees
them: every task it submits has an outcome, and the operations it performs are logged. The log holds
the latest event first.
-/

namespace DeepJit

structure DiskCache where
  paths : List Bytes
  paths_ne : paths ≠ []

/-- A directory below a root: `tmp/<uuid>`, by the number of the `get_uuid` call, or
`cache/<entry name>`. -/
inductive Place where
  | temporary (root uuid : Nat)
  | cache (root : Nat) (entryName : Bytes)
deriving DecidableEq, Repr

def Place.root : Place → Nat
  | temporary root _ => root
  | cache root _ => root

/-- The path of a place, given the results of `get_uuid`. -/
def DiskCache.locate (cache : DiskCache) (getUuid : Nat → Bytes) : Place → Bytes
  | .temporary root uuid => appendPath (appendPath (cache.paths.getD root []) (bytes "tmp")) (getUuid uuid)
  | .cache root entryName => appendPath (appendPath (cache.paths.getD root []) (bytes "cache")) entryName

/-! ### The log of a client -/

/-- Who calls `entry`: `Runtime::compile_impl` or `build_loader`. -/
inductive Client where
  | runtime
  | loader
deriving DecidableEq, Repr

inductive Operation where
  | lookup
  | setup
  | io
  | command
  | call
  | bootstrap
  | commit
  | cleanup
deriving DecidableEq, Repr

/-- The operations that are submitted to the I/O thread. -/
def Operation.isIoTask : Operation → Bool
  | command | call | bootstrap => false
  | _ => true

/-- The operations of a build or a load. -/
def Operation.isWork : Operation → Bool
  | lookup | setup | cleanup => false
  | _ => true

inductive Status where
  | done
  | absent
  | failed (what : Bytes)
  | late
deriving DecidableEq, Repr

def Status.of {α : Type} : Except Exn α → Status
  | .ok _ => .done
  | .error .ioTimeout => .late
  | .error (.other what) => .failed what

inductive Event where
  /-- The comparison `num_timeouts[root] >= 3` in `entry`. -/
  | check (client : Client) (root : Nat) (skipped : Bool)
  | operation (client : Client) (operation : Operation) (place : Place) (status : Status)
  | created (place : Place)
  | published (place : Place)
  | removed (place : Place)
  | report (root : Nat) (timeout : Bool)
deriving DecidableEq, Repr

/-- What outlives a request: the timeout counters of the cache, the bootstrap of the backend, the
number of `get_uuid` calls, and the log. -/
structure Session where
  numTimeouts : Nat → Nat := fun _ => 0
  uuids : Nat := 0
  bootstrapped : Bool := false
  log : List Event := []

namespace Session

def record (s : Session) (event : Event) : Session := { s with log := event :: s.log }

/-- Several events at once, the latest first. -/
def recordAll (s : Session) (events : List Event) : Session := { s with log := events ++ s.log }

@[simp] theorem recordAll_log (s : Session) (events : List Event) :
    (s.recordAll events).log = events ++ s.log := rfl
@[simp] theorem recordAll_uuids (s : Session) (events : List Event) :
    (s.recordAll events).uuids = s.uuids := rfl
@[simp] theorem recordAll_numTimeouts (s : Session) (events : List Event) :
    (s.recordAll events).numTimeouts = s.numTimeouts := rfl
@[simp] theorem record_log (s : Session) (event : Event) : (s.record event).log = event :: s.log :=
  rfl
@[simp] theorem record_numTimeouts (s : Session) (event : Event) :
    (s.record event).numTimeouts = s.numTimeouts := rfl
@[simp] theorem record_uuids (s : Session) (event : Event) : (s.record event).uuids = s.uuids := rfl

/-- `DiskCache::report_error`. -/
def reportError (s : Session) (root : Nat) (error : Exn) : Session :=
  { s with
    numTimeouts :=
      if error.isTimeout then Function.update s.numTimeouts root (s.numTimeouts root + 1) else s.numTimeouts
    log := .report root error.isTimeout :: s.log }

@[simp] theorem reportError_log (s : Session) (root : Nat) (error : Exn) :
    (s.reportError root error).log = .report root error.isTimeout :: s.log := rfl
@[simp] theorem reportError_uuids (s : Session) (root : Nat) (error : Exn) :
    (s.reportError root error).uuids = s.uuids := rfl

theorem reportError_numTimeouts (s : Session) (root : Nat) (error : Exn) (r : Nat) :
    (s.reportError root error).numTimeouts r =
      s.numTimeouts r + if error.isTimeout = true ∧ r = root then 1 else 0 := by
  unfold reportError
  by_cases htimeout : error.isTimeout = true <;> by_cases hr : r = root <;> simp [htimeout, hr]

/-- A new temporary directory on a root: the number of its `get_uuid` call, whether it comes to
exist, and how the task that sets it up ends. -/
def setUp (s : Session) (client : Client) (root : Nat) (creates : Bool) (status : Status) :
    Session :=
  { s with
    uuids := s.uuids + 1
    log := .operation client .setup (.temporary root s.uuids) status ::
      if creates then .created (.temporary root s.uuids) :: s.log else s.log }

/-- `num_timeouts[root] >= 3`, logged. -/
def checkTimeouts (s : Session) (client : Client) (root : Nat) : Bool × Session :=
  (decide (3 ≤ s.numTimeouts root), s.record (.check client root (decide (3 ≤ s.numTimeouts root))))

end Session

/-! ### Entries -/

/-- The roots from `first_root` on. -/
abbrev Root (cache : DiskCache) (first : Nat) := { i : Nat // first ≤ i ∧ i < cache.paths.length }

/-- `DiskCacheEntry`, obtained by a call of `entry` with the given first root. A hit has no commit
path. -/
structure DiskCacheEntry (cache : DiskCache) (first : Nat) where
  root : Root cache first
  hit : Bool
  committed : Bool := false
  abandoned : Bool := false
  shared : Bool := false
  path : Place
  commitPath : Option Place := none

/-- How the commit task ends when no step of it fails: by its rename, or by removing its source
because a complete entry is already there. -/
inductive Publication where
  | published
  | collided
deriving DecidableEq, Repr

namespace DiskCacheEntry

variable {cache : DiskCache} {first : Nat} (fallbackDisabled : Bool) (client : Client)

/-- `DiskCacheEntry::commit`. -/
def commit (entry : DiskCacheEntry cache first) (task : IoTask Publication) (s : Session) :
    Except Exn Unit × DiskCacheEntry cache first × Session :=
  if entry.hit || entry.committed then (.ok (), entry, s)
  else
    match runInIothread fallbackDisabled task with
    | .error error =>
        (.error error, if error.isTimeout then { entry with abandoned := true } else entry,
          s.record (.operation client .commit entry.path (.of (.error error : Except Exn Unit))))
    | .ok publication =>
        let s := s.record (.operation client .commit entry.path .done)
        (.ok (), { entry with path := entry.commitPath.getD entry.path, hit := true, committed := true },
          match publication with
          | .published => s.record (.published entry.path)
          | .collided => s.record (.removed entry.path))

/-- The assignment to `abandoned` in the handlers of a request. -/
def abandon (entry : DiskCacheEntry cache first) (abandoned : Bool) : DiskCacheEntry cache first :=
  { entry with abandoned := abandoned }

/-- `~DiskCacheEntry`. -/
def destroy (entry : DiskCacheEntry cache first) (cleanup : IoTask Unit) (s : Session) : Session :=
  if entry.hit || entry.committed || entry.abandoned then s
  else
    let s := s.record (.operation client .cleanup entry.path (.of (runInIothread fallbackDisabled cleanup)))
    match runInIothread fallbackDisabled cleanup with
    | .ok _ => s.record (.removed entry.path)
    | .error _ => s

end DiskCacheEntry

/-! ### `DiskCache::entry` -/

/-- The task that sets up a temporary directory. Its result is the SGID bit of the root. It can fail
after it created the directory. -/
structure SetupTask where
  task : IoTask Bool
  createdOnFailure : Bool := false

def SetupTask.creates (setup : SetupTask) : Bool :=
  match setup.task.result with
  | .ok _ => true
  | .error _ => setup.createdOnFailure

/-- What the tasks of one call of `entry` do, by root, and where its own exceptions are raised. -/
structure EntryOutcomes where
  lookup : Nat → IoTask Bool
  setup : Nat → SetupTask
  site : Site := {}

def isValidChar (c : UInt8) : Bool :=
  (97 ≤ c && c ≤ 122) || (65 ≤ c && c ≤ 90) || (48 ≤ c && c ≤ 57) || c == 95

/-- The condition on tags that `entry` asserts. -/
def isValidTag (tag : Bytes) : Bool := tag ≠ [] && tag.all isValidChar

namespace DiskCache

variable (cache : DiskCache) (fallbackDisabled : Bool) (client : Client)

def roots (first : Nat) : List (Root cache first) :=
  (List.range' first (cache.paths.length - first)).pmap Subtype.mk fun i hi => by
    rw [List.mem_range'_1] at hi
    omega

/-- The first pass of `entry`: the first root with a marker, and the roots whose lookup failed. -/
def lookupPass {cache : DiskCache} {first : Nat} (entryName : Bytes) (lookup : Nat → IoTask Bool) :
    List (Root cache first) → List Nat → Session →
    Except Exn (Option (Root cache first) × List Nat) × Session
  | [], failed, s => (.ok (none, failed), s)
  | i :: rest, failed, s =>
      let (skipped, s) := s.checkTimeouts client i
      if skipped then lookupPass entryName lookup rest failed s
      else
        match runInIothread fallbackDisabled (lookup i) with
        | .ok hit =>
            let s := s.record (.operation client .lookup (.cache i entryName) (if hit then .done else .absent))
            if hit then (.ok (some i, failed), s) else lookupPass entryName lookup rest failed s
        | .error error =>
            let s := s.record (.operation client .lookup (.cache i entryName) (.of (.error error : Except Exn Unit)))
            if fallbackDisabled then (.error error, s)
            else lookupPass entryName lookup rest (failed ++ [i.val]) (s.reportError i error)

/-- The second pass of `entry`: a temporary directory on the first root where it can be set up. -/
def setupPass {cache : DiskCache} {first : Nat} (entryName : Bytes) (o : EntryOutcomes)
    (failed : List Nat) :
    List (Root cache first) → Session → Except Exn (DiskCacheEntry cache first) × Session
  | [], s => (.error (djPanic o.site (bytes "all cache roots failed")), s)
  | i :: rest, s =>
      let (skipped, s) := s.checkTimeouts client i
      if skipped || failed.contains i.val then setupPass entryName o failed rest s
      else
        match runInIothread fallbackDisabled (o.setup i).task with
        | .ok shared =>
            (.ok { root := i, hit := false, shared := shared, path := .temporary i s.uuids,
                   commitPath := some (.cache i entryName) }, s.setUp client i true .done)
        | .error error =>
            let s := s.setUp client i (o.setup i).creates (.of (.error error : Except Exn Unit))
            if fallbackDisabled then (.error error, s)
            else setupPass entryName o failed rest (s.reportError i error)

/-- `DiskCache::entry`. -/
def entry (tag digest : Bytes) (o : EntryOutcomes) (first : Nat) (s : Session) :
    Except Exn (DiskCacheEntry cache first) × Session :=
  if !isValidTag tag then
    (.error (djHostAssert "not tag.empty() and std::ranges::all_of(tag, is_valid_char)" o.site
      (bytes "cache tag must contain only letters, digits, or underscores: " ++ tag)), s)
  else
    let entryName := tag ++ bytes "." ++ digest
    match lookupPass fallbackDisabled client entryName o.lookup (cache.roots first) [] s with
    | (.error error, s) => (.error error, s)
    | (.ok (some i, _), s) => (.ok { root := i, hit := true, path := .cache i entryName }, s)
    | (.ok (none, failed), s) => setupPass fallbackDisabled client entryName o failed (cache.roots first) s

end DiskCache

/-! ### What `entry` does -/

/-- How an operation that raises an exception ends: an I/O task by its timeout, which needs the I/O
thread, a command by its timeout, or any operation by an error. -/
inductive Raised (fallbackDisabled : Bool) : Exn → Operation → Status → Prop where
  | late {operation : Operation} (hio : operation.isIoTask = true)
      (henabled : fallbackDisabled = false) :
      Raised fallbackDisabled .ioTimeout operation .late
  | expired {what : Bytes} (hmentions : mentionsCommandTimeout what = true) :
      Raised fallbackDisabled (.other what) .command .late
  | failed (operation : Operation) (what : Bytes) :
      Raised fallbackDisabled (.other what) operation (.failed what)

theorem raised_of_runInIothread {α : Type} {fallbackDisabled : Bool} {task : IoTask α} {error : Exn}
    (operation : Operation) (hio : operation.isIoTask = true)
    (h : runInIothread fallbackDisabled task = .error error) :
    Raised fallbackDisabled error operation (.of (.error error : Except Exn Unit)) := by
  cases error with
  | other what => exact .failed operation what
  | ioTimeout =>
      refine .late hio ?_
      by_contra hdisabled
      rw [Bool.not_eq_false] at hdisabled
      exact runInIothread_disabled task (hdisabled ▸ h)

/-- What every part of `entry` keeps. A root is only touched while its counter is below three. -/
structure EntryInvariant (fallbackDisabled : Bool) (client : Client) (I : Session → Prop) :
    Prop where
  check {s : Session} (root : Nat) : I s → I (s.checkTimeouts client root).2
  lookup {s : Session} {root : Nat} {entryName : Bytes} {status : Status} :
    I s → s.numTimeouts root < 3 →
    status = .done ∨ status = .absent →
    I (s.record (.operation client .lookup (.cache root entryName) status))
  lookupFailed {s : Session} {root : Nat} {entryName : Bytes} {error : Exn} {status : Status} :
    I s →
    s.numTimeouts root < 3 → fallbackDisabled = false →
    Raised fallbackDisabled error .lookup status →
    I ((s.record (.operation client .lookup (.cache root entryName) status)).reportError root error)
  setupFailed {s : Session} {root : Nat} {error : Exn} {status : Status} (creates : Bool) : I s →
    s.numTimeouts root < 3 → fallbackDisabled = false →
    Raised fallbackDisabled error .setup status →
    I ((s.setUp client root creates status).reportError root error)

section

variable {cache : DiskCache} {fallbackDisabled : Bool} {client : Client} {I : Session → Prop}
  {first : Nat}

/-- Without fallback the first error leaves `entry`. -/
def EntryRaised (fallbackDisabled : Bool) (client : Client) (I : Session → Prop) (entryName : Bytes)
    (error : Exn)
    (s : Session) : Prop :=
  fallbackDisabled = true ∧ ∃ s₁ root status, I s₁ ∧ s₁.numTimeouts root < 3 ∧
    ((Raised fallbackDisabled error .lookup status ∧
        s = s₁.record (.operation client .lookup (.cache root entryName) status)) ∨
      (Raised fallbackDisabled error .setup status ∧
        ∃ creates, s = s₁.setUp client root creates status))

theorem lookupPass_rule (hI : EntryInvariant fallbackDisabled client I) (entryName : Bytes)
    (lookup : Nat → IoTask Bool) (roots : List (Root cache first)) (failed : List Nat) {s : Session}
    (hs : I s) :
    Post (fun _ s => I s) (EntryRaised fallbackDisabled client I entryName)
      (DiskCache.lookupPass fallbackDisabled client entryName lookup roots failed s) := by
  induction roots generalizing failed s with
  | nil => exact hs
  | cons i rest ih =>
      have hcheck := hI.check i.val hs
      rw [DiskCache.lookupPass]
      by_cases hskipped : 3 ≤ s.numTimeouts i.val
      · simp only [Session.checkTimeouts, hskipped, decide_true, if_true] at hcheck ⊢
        exact ih failed hcheck
      · have hlow : s.numTimeouts i.val < 3 := by omega
        simp only [Session.checkTimeouts, hskipped, decide_false, Bool.false_eq_true,
          if_false] at hcheck ⊢
        cases htask : runInIothread fallbackDisabled (lookup i.val) with
        | ok hit =>
            cases hit with
            | true => exact hI.lookup hcheck hlow (.inl rfl)
            | false => exact ih failed (hI.lookup hcheck hlow (.inr rfl))
        | error error =>
            have hraised := raised_of_runInIothread .lookup rfl htask
            cases fallbackDisabled with
            | true => exact ⟨rfl, _, _, _, hcheck, hlow, .inl ⟨hraised, rfl⟩⟩
            | false => exact ih _ (hI.lookupFailed hcheck hlow rfl hraised)

/-- A miss of `entry`: the state before the setup of its directory, and the entry. -/
def EntryMissed (client : Client) (I : Session → Prop) (entryName : Bytes)
    (entry : DiskCacheEntry cache first)
    (s : Session) : Prop :=
  ∃ s₁ shared, I s₁ ∧ s₁.numTimeouts entry.root < 3 ∧ s = s₁.setUp client entry.root true .done ∧
    entry = { root := entry.root, hit := false, shared := shared, path := .temporary entry.root s₁.uuids,
              commitPath := some (.cache entry.root entryName) }

theorem setupPass_rule (hI : EntryInvariant fallbackDisabled client I) (entryName : Bytes)
    (o : EntryOutcomes)
    (failed : List Nat) (roots : List (Root cache first)) {s : Session} (hs : I s) :
    Post (EntryMissed client I entryName)
      (fun error s => (error.isTimeout = false ∧ I s) ∨
        EntryRaised fallbackDisabled client I entryName error s)
      (DiskCache.setupPass fallbackDisabled client entryName o failed roots s) := by
  induction roots generalizing s with
  | nil => exact .inl ⟨rfl, hs⟩
  | cons i rest ih =>
      have hcheck := hI.check i.val hs
      rw [DiskCache.setupPass]
      by_cases hpassed : (decide (3 ≤ s.numTimeouts i.val) || failed.contains i.val) = true
      · simp only [Session.checkTimeouts, hpassed, if_true] at hcheck ⊢
        exact ih hcheck
      · have hlow : s.numTimeouts i.val < 3 := by
          simp only [Bool.or_eq_true, decide_eq_true_eq, not_or] at hpassed
          omega
        simp only [Session.checkTimeouts, hpassed] at hcheck ⊢
        cases htask : runInIothread fallbackDisabled (o.setup i.val).task with
        | ok shared => exact ⟨_, shared, hcheck, hlow, rfl, rfl⟩
        | error error =>
            have hraised := raised_of_runInIothread .setup rfl htask
            cases fallbackDisabled with
            | true => exact .inr ⟨rfl, _, _, _, hcheck, hlow, .inr ⟨hraised, _, rfl⟩⟩
            | false => exact ih (hI.setupFailed _ hcheck hlow rfl hraised)

/-- A call of `entry` ends with a hit, with a miss in a new directory, or with an error. With
fallback its error is no timeout. -/
theorem entry_rule (hI : EntryInvariant fallbackDisabled client I) (tag digest : Bytes)
    (o : EntryOutcomes) (first : Nat) {s : Session} (hs : I s) :
    Post (fun entry s => (I s ∧ entry.hit = true ∧ entry.path = .cache entry.root (tag ++ bytes "." ++ digest)) ∨
        EntryMissed client I (tag ++ bytes "." ++ digest) entry s)
      (fun error s => (error.isTimeout = false ∧ I s) ∨
        EntryRaised fallbackDisabled client I (tag ++ bytes "." ++ digest) error s)
      (cache.entry fallbackDisabled client tag digest o first s) := by
  unfold DiskCache.entry
  by_cases htag : isValidTag tag = true
  · simp only [htag, Bool.not_true, Bool.false_eq_true, if_false]
    have hlookup := lookupPass_rule hI (tag ++ bytes "." ++ digest) o.lookup (cache.roots first) [] hs
    rcases hpass : DiskCache.lookupPass fallbackDisabled client (tag ++ bytes "." ++ digest) o.lookup
      (cache.roots first) [] s with ⟨result, s₁⟩
    rw [hpass] at hlookup
    match result with
    | .error error => exact .inr hlookup
    | .ok (some i, _) => exact .inl ⟨hlookup, rfl, rfl⟩
    | .ok (none, failed) =>
        exact (setupPass_rule hI _ o failed (cache.roots first) hlookup).imp (fun _ _ => .inr)
          fun _ _ => id
  · simp only [htag, Bool.not_false, if_true]
    exact .inl ⟨rfl, hs⟩

end

end DeepJit
