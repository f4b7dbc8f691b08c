import DeepJit.Backend.Ascend.Options
import DeepJit.Backend.Cuda.PostHook
import DeepJit.Utils.HashCollision

/-!
# What a cache key is a hash of

The `update` calls behind a cache key, for both backends. The calls can be read back from the bytes
that they mix, and the number of components tells the backends and the modes apart, so two keys are
hashes of one stream only if they agree in every part.
-/

namespace DeepJit

open Hash.FNV1a

/-! ### The two backends -/

/-- The options of a `Runtime`, by its backend. -/
inductive BackendOptions
  | cuda (options : Cuda.CompilerOptions)
  | ascend (options : Ascend.CompilerOptions)

inductive Mode
  | cuda
  | aicore
  | aicpu
deriving DecidableEq

/-- What `update_hash` puts in front of the flag strings. -/
def Mode.marker : Mode → List Bytes
  | cuda => []
  | aicore => []
  | aicpu => [bytes "aicpu"]

namespace BackendOptions

def mode : BackendOptions → Mode
  | cuda _ => .cuda
  | ascend options => if options.aicpu.getD false then .aicpu else .aicore

/-- The joined flag lists. -/
def flagStrings : BackendOptions → Except Bytes (List Bytes)
  | cuda options => options.getFlags.map fun flags => [Str.join flags]
  | ascend options =>
      options.getBishengFlags.map fun flags => [Str.join flags, Str.join options.getLinkerFlags]

/-- The components that `update_hash` feeds to the hasher. -/
def updateHash : BackendOptions → Except Bytes (List Bytes)
  | cuda options => options.updateHash
  | ascend options => options.updateHash

/-- `get_post_hook_hash`, which is empty on Ascend. -/
def getPostHookHash (digest : List Bytes → Bytes) (config : Config)
    (readFile : Bytes → Except Bytes Bytes) (hashes : List (Bytes × Bytes)) :
    BackendOptions → Except Bytes (Bytes × List (Bytes × Bytes))
  | cuda options => options.getPostHookHash digest config readFile hashes
  | ascend _ => .ok ([], hashes)

theorem updateHash_eq (options : BackendOptions) :
    options.updateHash = options.flagStrings.map fun flags => options.mode.marker ++ flags := by
  cases options with
  | cuda options =>
      rw [updateHash, Cuda.CompilerOptions.updateHash, flagStrings, mode]
      cases options.getFlags <;> rfl
  | ascend options =>
      rw [updateHash, Ascend.CompilerOptions.updateHash, flagStrings, mode]
      cases options.getBishengFlags with
      | error e => rfl
      | ok flags => cases options.aicpu.getD false <;> rfl

/-- CUDA has one flag string, Ascend two. -/
theorem flagStrings_length {options : BackendOptions} {flags : List Bytes}
    (h : options.flagStrings = .ok flags) :
    flags.length = if options.mode = .cuda then 1 else 2 := by
  cases options with
  | cuda options =>
      rw [flagStrings] at h
      cases hflags : options.getFlags with
      | error e => simp [hflags, Except.map] at h
      | ok list =>
          simp only [hflags, Except.map, Except.ok.injEq] at h
          rw [← h]
          rfl
  | ascend options =>
      have hmode : (ascend options).mode ≠ .cuda := by
        rw [mode]
        split <;> decide
      rw [flagStrings] at h
      cases hflags : options.getBishengFlags with
      | error e => simp [hflags, Except.map] at h
      | ok list =>
          simp only [hflags, Except.map, Except.ok.injEq] at h
          rw [← h, if_neg hmode]
          rfl

end BackendOptions

theorem Mode.marker_length (mode : Mode) : mode.marker.length = if mode = .aicpu then 1 else 0 := by
  cases mode <;> rfl

/-! ### `Runtime::cache_key` -/

section

variable (digest : List Bytes → Bytes) (readFile : Bytes → Except Bytes Bytes) (fs : FileSystem)

/-- A call of `cache_key` on a runtime, with the table of the thread and the parser of the runtime
as it finds them. -/
structure KeyCall where
  runtime : Cuda.KeyRuntime
  options : BackendOptions
  source : Bytes
  hashes : List (Bytes × Bytes)
  parser : Parser.State

namespace KeyCall

def hookHash (call : KeyCall) : Except Bytes Bytes :=
  (call.options.getPostHookHash digest call.runtime.config readFile call.hashes).map Prod.fst

/-- The digest of the source. -/
def sourceDigest (call : KeyCall) : Option (Except ParseError Bytes) :=
  (parseIntoHash digest fs call.runtime.parser call.source call.parser).map Prod.fst

/-- The components of the `update` calls on `hash_base` and in `cache_key`. -/
def updates (call : KeyCall) : Option (Except Cuda.KeyError (List Bytes)) :=
  match call.options.updateHash with
  | .error e => some (.error (.options e))
  | .ok flags =>
      match call.hookHash digest readFile with
      | .error e => some (.error (.hook e))
      | .ok hookHash =>
          match call.sourceDigest digest fs with
          | none => none
          | some (.error e) => some (.error (.source e))
          | some (.ok sourceDigest) =>
              some (.ok ([call.runtime.config.extraSignature, call.runtime.compilerHash] ++ flags ++
                [hookHash, sourceDigest]))

variable {digest readFile fs}

theorem updates_spec {call : KeyCall} {components : List Bytes}
    (h : call.updates digest readFile fs = some (.ok components)) :
    ∃ flags hookHash sourceDigest, call.options.flagStrings = .ok flags ∧
      call.hookHash digest readFile = .ok hookHash ∧
      call.sourceDigest digest fs = some (.ok sourceDigest) ∧
      components = call.runtime.config.extraSignature :: call.runtime.compilerHash ::
        (call.options.mode.marker ++ (flags ++ [hookHash, sourceDigest])) := by
  rw [updates, BackendOptions.updateHash_eq] at h
  cases hflags : call.options.flagStrings with
  | error e => simp [hflags, Except.map] at h
  | ok flags =>
      cases hhook : call.hookHash digest readFile with
      | error e => simp [hflags, hhook, Except.map] at h
      | ok hookHash =>
          cases hsource : call.sourceDigest digest fs with
          | none => simp [hflags, hhook, hsource, Except.map] at h
          | some result =>
              cases result with
              | error e => simp [hflags, hhook, hsource, Except.map] at h
              | ok sourceDigest =>
                  refine ⟨flags, hookHash, sourceDigest, rfl, rfl, rfl, ?_⟩
                  simpa [hflags, hhook, hsource, Except.map] using h.symm

/-- The model of the CUDA key is the digest of these components. -/
theorem cuda_cacheKey_eq (runtimes : Nat → Cuda.KeyRuntime) (request : Cuda.KeyRequest) (s : Cuda.KeyState) :
    (Cuda.cacheKey digest readFile fs runtimes request s).1 =
      (updates digest readFile fs ⟨runtimes request.runtime, .cuda request.options, request.source,
        s.hashes, s.parsers request.runtime⟩).map (Except.map digest) := by
  rw [Cuda.cacheKey, updates, hookHash, sourceDigest, BackendOptions.updateHash,
    BackendOptions.getPostHookHash]
  cases request.options.updateHash with
  | error e => rfl
  | ok flags =>
      cases request.options.getPostHookHash digest (runtimes request.runtime).config readFile s.hashes with
      | error e => rfl
      | ok out =>
          obtain ⟨hookHash, hashes⟩ := out
          dsimp only [Except.map]
          cases parseIntoHash digest fs (runtimes request.runtime).parser request.source
              (s.parsers request.runtime) with
          | none => rfl
          | some out =>
              obtain ⟨result, parser⟩ := out
              cases result <;> rfl

end KeyCall

end

/-- Hash framing is unambiguous: the bytes that a sequence of `update` calls mixes determine the
components, and two cache keys are hashes of one stream only if the two runtimes and calls agree in
every part, on whichever backends. -/
theorem stream_unambiguous :
    (∀ (h : Hash.FNV1a) (components : List Bytes),
      components.foldl update h = (stream components).foldl updateByte h) ∧
    (∀ left right : List Bytes, Sized left → Sized right →
      (stream left = stream right ↔ left = right)) ∧
    ∀ (digest : List Bytes → Bytes) (readFile : Bytes → Except Bytes Bytes) (fs : FileSystem)
      (call call' : KeyCall) (components components' : List Bytes),
      call.updates digest readFile fs = some (.ok components) →
      call'.updates digest readFile fs = some (.ok components') →
      Sized components → Sized components' → stream components = stream components' →
      call.runtime.config.extraSignature = call'.runtime.config.extraSignature ∧
      call.runtime.compilerHash = call'.runtime.compilerHash ∧
      call.options.mode = call'.options.mode ∧
      call.options.flagStrings = call'.options.flagStrings ∧
      call.hookHash digest readFile = call'.hookHash digest readFile ∧
      call.sourceDigest digest fs = call'.sourceDigest digest fs := by
  refine ⟨fun h components => foldl_update components h, fun _ _ => stream_inj, ?_⟩
  intro digest readFile fs call call' components components' hupdates hupdates' hsized hsized' hstream
  have heq := (stream_inj hsized hsized').mp hstream
  obtain ⟨flags, hookHash, sourceDigest, hflags, hhook, hsource, rfl⟩ := KeyCall.updates_spec hupdates
  obtain ⟨flags', hookHash', sourceDigest', hflags', hhook', hsource', rfl⟩ :=
    KeyCall.updates_spec hupdates'
  have hlength := congrArg List.length heq
  simp only [List.length_cons, List.length_append, Mode.marker_length,
    BackendOptions.flagStrings_length hflags, BackendOptions.flagStrings_length hflags'] at hlength
  have hmode : call.options.mode = call'.options.mode := by
    revert hlength
    generalize call.options.mode = mode
    generalize call'.options.mode = mode'
    cases mode <;> cases mode' <;> simp
  simp only [List.cons.injEq, hmode] at heq
  obtain ⟨hsignature, hcompiler, htail⟩ := heq
  obtain ⟨hflagsEq, hends⟩ := List.append_inj' (List.append_cancel_left htail) rfl
  simp only [List.cons.injEq, and_true] at hends
  refine ⟨hsignature, hcompiler, hmode, ?_, ?_, ?_⟩
  · rw [hflags, hflags', hflagsEq]
  · rw [hhook, hhook', hends.1]
  · rw [hsource, hsource', hends.2]

/-- A call for an empty source in the AICPU mode. -/
def KeyCall.sample : KeyCall where
  runtime := ⟨⟨[], [], [], []⟩, bytes "bisheng"⟩
  options := .ascend { aicpu := some true, optimizeLevel := some (bytes "2") }
  source := []
  hashes := []
  parser := {}

theorem stream_unambiguous_sample :
    (stream [[], [0]] = stream [[0], []] ↔ [[], [0]] = [[0], ([] : Bytes)]) ∧
      KeyCall.sample.options.flagStrings = KeyCall.sample.options.flagStrings := by
  have hsized : Sized [[], bytes "bisheng", bytes "aicpu", bytes "-O2", [], [], digest [[]]] := by
    simp [Sized, bytes, digest_length]
  have hupdates : KeyCall.sample.updates digest (fun _ => .error []) ⟨[], fun _ => .missing⟩ =
      some (.ok [[], bytes "bisheng", bytes "aicpu", bytes "-O2", [], [], digest [[]]]) := rfl
  exact ⟨stream_unambiguous.2.1 _ _ (by simp [Sized]) (by simp [Sized]),
    (stream_unambiguous.2.2 digest (fun _ => .error []) ⟨[], fun _ => .missing⟩ .sample .sample _ _
      hupdates hupdates hsized hsized rfl).2.2.2.1⟩

end DeepJit
