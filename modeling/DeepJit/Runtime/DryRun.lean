import DeepJit.Runtime.PrecompilerSafety
import DeepJit.Runtime.RequestRules
import DeepJit.Utils.Hash

/-!
# Dry runs

With `JIT_DRY_RUN` a call of `Runtime::compile` enqueues a call of `compile_impl` with the
precompiler. When `finish` returns normally, every kernel that was asked for has an entry in the
disk cache.
-/

namespace DeepJit

/-! ### What a request returns -/

section

variable {ρ : Type} {cache : DiskCache} {fallbackDisabled : Bool} {client : Client} {first : Nat}

/-- A lookup that finds an entry found its marker. -/
theorem lookupPass_found (fallbackDisabled : Bool) (client : Client) (entryName : Bytes)
    (lookup : Nat → IoTask Bool) (roots : List (Root cache first))
    (failed : List Nat) (s : Session) :
    Post (fun found s => ∀ i, found.1 = some i →
      .operation client .lookup (.cache i entryName) .done ∈ s.log)
      (fun _ _ => True) (DiskCache.lookupPass fallbackDisabled client entryName lookup roots failed s) := by
  induction roots generalizing failed s with
  | nil =>
      intro i hi
      simp at hi
  | cons i rest ih =>
      rw [DiskCache.lookupPass]
      by_cases hskipped : 3 ≤ s.numTimeouts i.val
      · simp only [Session.checkTimeouts, hskipped, decide_true, if_true]
        exact ih failed _
      · simp only [Session.checkTimeouts, hskipped, decide_false, Bool.false_eq_true, if_false]
        cases runInIothread fallbackDisabled (lookup i.val) with
        | ok hit =>
            cases hit with
            | false => exact ih failed _
            | true =>
                intro j hj
                obtain rfl : i = j := by simpa using hj
                simp
        | error error =>
            cases fallbackDisabled with
            | true => exact trivial
            | false => exact ih _ _

theorem entryInvariant_true : EntryInvariant fallbackDisabled client fun _ => True :=
  ⟨fun _ _ => trivial, fun _ _ _ => trivial, fun _ _ _ _ => trivial, fun _ _ _ _ _ => trivial⟩

theorem entry_found (tag digest : Bytes) (o : EntryOutcomes) (s : Session) :
    Post (fun entry s => entry.hit = true → .operation client .lookup entry.path .done ∈ s.log)
      (fun _ _ => True)
      (cache.entry fallbackDisabled client tag digest o first s) := by
  unfold DiskCache.entry
  by_cases htag : isValidTag tag = true
  · simp only [htag, Bool.not_true, Bool.false_eq_true, if_false]
    have hlookup := lookupPass_found fallbackDisabled client (tag ++ bytes "." ++ digest) o.lookup (cache.roots first) [] s
    rcases hpass : DiskCache.lookupPass fallbackDisabled client (tag ++ bytes "." ++ digest) o.lookup
      (cache.roots first) [] s with ⟨result, s₁⟩
    rw [hpass] at hlookup
    match result with
    | .error error => exact trivial
    | .ok (some i, _) => exact fun _ => hlookup i rfl
    | .ok (none, failed) =>
        refine (setupPass_rule entryInvariant_true _ o failed (cache.roots first) trivial).imp ?_
          fun _ _ _ => trivial
        intro entry s₂ hmissed hhit
        obtain ⟨s₁, shared, -, -, -, hentry⟩ := hmissed
        rw [hentry] at hhit
        simp at hhit
  · simp only [htag, Bool.not_false, if_true]
    exact trivial

/-- The log shows that an entry is complete: its marker was found, or a commit to it ended
normally. -/
def Committed (s : Session) (root : Nat) (entryName : Bytes) : Prop :=
  .operation .runtime .lookup (.cache root entryName) .done ∈ s.log ∨
    ∃ uuid publication, publicationEvent (.temporary root uuid) publication ∈ s.log

/-- `compile_impl<false>` returns the directory of a complete entry for its own name and key. -/
theorem compileImpl_committed (loader : Loader) (backend : Backend ρ) (name key : Bytes) (input : ρ)
    (o : RequestOutcomes) (s : Session) :
    Post (fun place s => ∃ root, root < cache.paths.length ∧ place = .cache root (name ++ bytes "." ++ key) ∧
        Committed s root (name ++ bytes "." ++ key))
      (fun _ _ => True) (compileImpl cache fallbackDisabled loader backend false name key input o s) := by
  rw [compileImpl]
  apply run_rule (fun _ _ => True) fun first (entry : DiskCacheEntry cache first) s =>
    (entry.hit = true ∧ entry.path = .cache entry.root (name ++ bytes "." ++ key) ∧
        .operation .runtime .lookup entry.path .done ∈ s.log) ∨
      ∃ uuid shared, entry =
        { root := entry.root, hit := false, shared := shared, path := .temporary entry.root uuid,
          commitPath := some (.cache entry.root (name ++ bytes "." ++ key)) }
  · intro first s _
    refine ((entry_rule entryInvariant_true name key (o.entry first) first trivial).and
      (entry_found name key (o.entry first) s)).imp ?_ fun _ _ _ => trivial
    intro entry s' hentry
    obtain ⟨⟨-, hhit, hpath⟩ | ⟨s₁, shared, -, -, -, hentry⟩, hfound⟩ := hentry
    · exact .inl ⟨hhit, hpath, hfound hhit⟩
    · exact .inr ⟨s₁.uuids, shared, hentry⟩
  · intro first entry s hentry
    rw [requestWork, buildEntry]
    obtain ⟨hhit, hpath, hfound⟩ | ⟨uuid, shared, hmiss⟩ := hentry
    · rw [if_pos hhit]
      rw [hpath] at hfound
      exact ⟨entry.root, entry.root.2.2, hpath,
        .inl (by simpa [DiskCacheEntry.destroy, hhit] using hfound)⟩
    · have hhit : entry.hit = false := by rw [hmiss]
      have hcommitted : entry.committed = false := by rw [hmiss]
      have hpath : entry.path = .temporary entry.root uuid := by rw [hmiss]
      have hcommitPath : entry.commitPath = some (.cache entry.root (name ++ bytes "." ++ key)) := by rw [hmiss]
      rw [hhit, if_neg Bool.false_ne_true]
      have hbuilt := build_spec fallbackDisabled .runtime (o.attempt entry.root).toWorkOutcomes
        (backend.compile input entry.path) hhit hcommitted s
      rcases hrun : build fallbackDisabled .runtime (o.attempt entry.root).toWorkOutcomes
        (backend.compile input entry.path) entry s with ⟨result, entry', s₁⟩
      rw [hrun] at hbuilt
      cases result with
      | error error =>
          have hhandled : Handled fallbackDisabled .runtime (fun root => (o.attempt root).cleanup) (fun _ _ => True)
              (fun _ _ => True) error (entry', s₁) := by
            simp [Handled]
          exact hhandled
      | ok _ =>
          obtain ⟨hpublished, events, publication, -, hs₁⟩ := hbuilt
          dsimp only at hpublished hs₁
          subst hpublished hs₁
          refine ⟨entry.root, entry.root.2.2,
            by simp [DiskCacheEntry.publish, hcommitPath], .inr ⟨uuid, publication, ?_⟩⟩
          simp [DiskCacheEntry.destroy, DiskCacheEntry.publish, hpath]
  · exact trivial

end

/-! ### Dry runs -/

/-- A call of `Runtime::compile` with its name, the hasher of its cache key, and the outcomes of its
job. -/
structure DryCall (ρ : Type) where
  name : Bytes
  hash : Hash.FNV1a
  input : ρ
  outcomes : RequestOutcomes

namespace DryCall

variable {ρ : Type}

def cacheKey (call : DryCall ρ) : Bytes := call.hash.getHexDigest

/-- The key that is passed to `enqueue`. -/
def submission (call : DryCall ρ) : Bytes := call.name ++ bytes "." ++ call.cacheKey

/-- The two parts of a submission can be told apart because all cache keys have one length. -/
theorem submission_injective {call call' : DryCall ρ} (h : call.submission = call'.submission) :
    call.name = call'.name ∧ call.cacheKey = call'.cacheKey := by
  have hlength : call.cacheKey.length = call'.cacheKey.length := by
    rw [cacheKey, cacheKey, Hash.FNV1a.getHexDigest_length, Hash.FNV1a.getHexDigest_length]
  obtain ⟨hname, hkey⟩ := List.append_inj' h hlength
  exact ⟨List.append_cancel_right hname, hkey⟩

section

variable (cache : DiskCache) (fallbackDisabled : Bool) (loader : Loader) (backend : Backend ρ)

/-- A run of `compile_impl` for a call. It starts from any counters of the roots, since jobs share
them. -/
def Ran (call : DryCall ρ) (s : Session) (result : Except Exn Place) (s' : Session) : Prop :=
  compileImpl cache fallbackDisabled loader backend false call.name call.cacheKey call.input call.outcomes s = (result, s')

def job (call : DryCall ρ) (outcome : Except Exn Unit) : Prop :=
  ∃ s result s', call.Ran cache fallbackDisabled loader backend s result s' ∧
    outcome = result.map fun _ => ()

end

end DryCall

/-- The precompiler of a runtime in a dry run. -/
def dryRun {ρ : Type} (cache : DiskCache) (fallbackDisabled : Bool) (loader : Loader)
    (backend : Backend ρ) (calls : Nat → DryCall ρ) (numWorkers : Nat) :
    TransitionSystem (Precompiler.State Bytes Exn) Precompiler.Action :=
  Precompiler.system numWorkers (fun c => (calls c).submission)
    fun c => (calls c).job cache fallbackDisabled loader backend

/-! ### A dry run -/

def DiskCache.sample : DiskCache := ⟨[bytes "/root"], by simp⟩

def DryCall.sample : DryCall Unit where
  name := bytes "kernel"
  hash := {}
  input := ()
  outcomes := .calm false

theorem DryCall.sample_ran :
    ∃ place s, DryCall.sample.Ran .sample false .sample .sample {} (.ok place) s := by
  exact ⟨_, _, rfl⟩

/-- One call and one worker. -/
theorem exists_reachable_dryRun :
    ∃ s, (dryRun .sample false .sample .sample (fun _ => .sample) 1).Reachable s ∧
    s.producer = .ended (.ok ()) ∧
      s.accepted = [0] := by
  obtain ⟨place, s₁, hran⟩ := DryCall.sample_ran
  have hinit : (dryRun .sample false .sample .sample (fun _ => .sample) 1).Reachable {} :=
    ⟨{}, ⟨Nat.one_pos, rfl⟩, .refl _⟩
  have hinserted := hinit.tail (a := .producer) (.insert rfl (by simp))
  have hpushed := hinserted.tail (a := .producer) (.push rfl)
  have hidle := hpushed.tail (a := .producer) (.notifyOne rfl (.none fun w => by simp [Precompiler.State.push]))
  have hrunning := hidle.tail (a := .worker 0) (.take Nat.one_pos rfl rfl)
  have hdone := hrunning.tail (a := .worker 0) (.complete rfl ⟨{}, _, s₁, hran, rfl⟩)
  have hcounted := hdone.tail (a := .worker 0) (.count rfl)
  have hstopping := hcounted.tail (a := .producer) (.stop rfl)
  have hjoining := hstopping.tail (a := .producer) (.notifyAll rfl)
  have hexited := hjoining.tail (a := .worker 0) (.exit Nat.one_pos rfl rfl rfl)
  have hjoined := hexited.tail (a := .producer) (.join rfl Nat.one_pos rfl)
  have hgetting := hjoined.tail (a := .producer) (.joined rfl)
  have hgot := hgetting.tail (a := .producer) (.get rfl rfl rfl)
  have hended := hgot.tail (a := .producer) (.getLast rfl)
  exact ⟨_, hended, rfl, rfl⟩

end DeepJit
