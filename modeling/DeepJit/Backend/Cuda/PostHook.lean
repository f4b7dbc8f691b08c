import DeepJit.Backend.Cuda.Options
import DeepJit.Library.MemoTable
import DeepJit.Utils.Hash
import DeepJit.Utils.ParserDigest

/-!
# The post-hook hash and its table

`get_post_hook_hash` keeps the digests of a thread in a table keyed by the resolved path, while a
digest covers the path as it was written as well. Two spellings of one path therefore share the
digest of the one that came first. `Runtime::cache_key` calls it, so that a key is free of history
under the same condition.
-/

namespace DeepJit.Cuda

open MemoEval

/-- A call of `get_post_hook_hash`. -/
structure HookCall where
  options : CompilerOptions
  config : Config

/-- The path that the hook resolves to. -/
def HookCall.path (call : HookCall) : Option Bytes := call.options.postHook.map call.config.getPythonPath

section

variable (digest : List Bytes → Bytes) (readFile : Bytes → Except Bytes Bytes)

/-- The results of the calls of one thread. -/
def postHookHashes : List HookCall → List (Bytes × Bytes) → List (Except Bytes Bytes)
  | [], _ => []
  | call :: calls, hashes =>
      match call.options.getPostHookHash digest call.config readFile hashes with
      | .error e => .error e :: postHookHashes calls hashes
      | .ok (hash, hashes) => .ok hash :: postHookHashes calls hashes

/-- The digest of the hook as this call writes it and of the file that it resolves to. -/
def HookCall.ownHash (call : HookCall) : Except Bytes Bytes :=
  match call.options.postHook with
  | none => .ok []
  | some hook =>
      match readFile (call.config.getPythonPath hook) with
      | .error e => .error e
      | .ok content => .ok (digest [hook, content])

/-- Two calls that resolve to one readable file write its path alike, or the digests of the two
spellings collide. -/
def SpelledAlike (call later : HookCall) : Prop :=
  ∀ hook hook' content, call.options.postHook = some hook → later.options.postHook = some hook' →
    call.config.getPythonPath hook = later.config.getPythonPath hook' →
    readFile (call.config.getPythonPath hook) = .ok content →
    hook = hook' ∨ digest [hook, content] = digest [hook', content]

variable {digest readFile}

/-- `get_post_hook_hash` is a call of a table. -/
theorem getPostHookHash_eq (call : HookCall) (hashes : List (Bytes × Bytes)) :
    call.options.getPostHookHash digest call.config readFile hashes =
      match tableCall HookCall.path (HookCall.ownHash digest readFile) call hashes with
      | (.error e, _) => .error e
      | (.ok hash, hashes) => .ok (hash, hashes) := by
  rw [CompilerOptions.getPostHookHash, CompilerOptions.postHookComponents, tableCall, HookCall.path,
    HookCall.ownHash]
  cases call.options.postHook with
  | none => rfl
  | some hook =>
      simp only [Option.map_some]
      cases hashes.lookup (call.config.getPythonPath hook) with
      | some hash => rfl
      | none => cases readFile (call.config.getPythonPath hook) <;> rfl

theorem tableCall_of_error {call : HookCall} {hashes : List (Bytes × Bytes)} {e : Bytes}
    (h : (tableCall HookCall.path (HookCall.ownHash digest readFile) call hashes).1 = .error e) :
    (tableCall HookCall.path (HookCall.ownHash digest readFile) call hashes).2 = hashes := by
  unfold tableCall at h ⊢
  cases hpath : call.path with
  | none => rfl
  | some path =>
      cases hfound : hashes.lookup path with
      | some hash => simp [hpath, hfound] at h
      | none =>
          cases hown : call.ownHash digest readFile with
          | error e => simp [hfound]
          | ok hash => simp [hpath, hfound, hown] at h

theorem postHookHashes_eq (calls : List HookCall) (hashes : List (Bytes × Bytes)) :
    postHookHashes digest readFile calls hashes =
      tableCalls HookCall.path (HookCall.ownHash digest readFile) calls hashes := by
  induction calls generalizing hashes with
  | nil => rfl
  | cons call calls ih =>
      rw [postHookHashes, tableCalls, getPostHookHash_eq]
      rcases hcall : tableCall HookCall.path (HookCall.ownHash digest readFile) call hashes with ⟨result, after⟩
      cases result with
      | ok hash => simp [ih]
      | error e =>
          have hafter := tableCall_of_error (congrArg Prod.fst hcall)
          obtain rfl : after = hashes := by simpa [hcall] using hafter
          simp [ih]

theorem agree_iff_spelledAlike (call later : HookCall) :
    Agree HookCall.path (HookCall.ownHash digest readFile) call later ↔
      SpelledAlike digest readFile call later := by
  unfold Agree SpelledAlike HookCall.path HookCall.ownHash
  cases call.options.postHook with
  | none => simp
  | some hook =>
      cases later.options.postHook with
      | none => simp
      | some hook' =>
          simp only [Option.map_some, Option.some.injEq]
          constructor
          · intro h hook₁ hook₁' content hhook hhook' hpath hread
            subst hhook hhook'
            have hlater := h _ rfl hpath.symm (digest [hook, content]) (by rw [hread])
            rw [← hpath, hread, Except.ok.injEq] at hlater
            exact .inr hlater.symm
          · intro h path hpath hpath' hash hhash
            subst hpath
            cases hread : readFile (call.config.getPythonPath hook) with
            | error e => simp [hread] at hhash
            | ok content =>
                simp only [hread, Except.ok.injEq] at hhash
                rw [hpath', hread]
                rcases h hook hook' content rfl rfl hpath'.symm hread with heq | heq
                · rw [← hhash, heq]
                · rw [← hhash, heq]

/-- Every call of a thread returns its own digest exactly if its calls spell alike. -/
theorem postHookHashes_eq_map_iff (calls : List HookCall) :
    postHookHashes digest readFile calls [] = calls.map (HookCall.ownHash digest readFile) ↔
      calls.Pairwise (SpelledAlike digest readFile) := by
  rw [postHookHashes_eq, tableCalls_nil_eq_map_iff]
  exact List.Pairwise.iff fun call later => agree_iff_spelledAlike call later

end

/-! ### `Runtime::cache_key` -/

/-- The members of a `Runtime` that its keys depend on. -/
structure KeyRuntime where
  config : Config
  compilerHash : Bytes

def KeyRuntime.parser (runtime : KeyRuntime) : Parser where
  includeDirs := runtime.config.includeDirs
  includePrefixes := runtime.config.includePrefixes

/-- Where the exception of a key comes from. -/
inductive KeyError where
  | options (what : Bytes)
  | hook (what : Bytes)
  | source (error : ParseError)

/-- A call of `cache_key` on one of several runtimes. -/
structure KeyRequest where
  runtime : Nat
  options : CompilerOptions
  source : Bytes

/-- What calls of `cache_key` change: the table of the thread and the parsers of the runtimes. -/
structure KeyState where
  hashes : List (Bytes × Bytes) := []
  parsers : Nat → Parser.State := fun _ => {}

section

variable (digest : List Bytes → Bytes) (readFile : Bytes → Except Bytes Bytes) (fs : FileSystem)
  (runtimes : Nat → KeyRuntime)

/-- The digest of the extra signature, the compiler, the options, the post hook and the source. -/
def keyDigest (runtime : KeyRuntime) (flags : List Bytes) (hookHash sourceHash : Bytes) : Bytes :=
  digest ([runtime.config.extraSignature, runtime.compilerHash] ++ flags ++ [hookHash, sourceHash])

/-- `Runtime::cache_key`. The hook is hashed before the source. -/
def cacheKey (request : KeyRequest) (s : KeyState) : Option (Except KeyError Bytes) × KeyState :=
  match request.options.updateHash with
  | .error e => (some (.error (.options e)), s)
  | .ok flags =>
      match request.options.getPostHookHash digest (runtimes request.runtime).config readFile s.hashes with
      | .error e => (some (.error (.hook e)), s)
      | .ok (hookHash, hashes) =>
          match parseIntoHash digest fs (runtimes request.runtime).parser request.source
              (s.parsers request.runtime) with
          | none => (none, { s with hashes := hashes })
          | some (result, parser) =>
              (match result with
                | .error e => some (.error (.source e))
                | .ok sourceHash =>
                    some (.ok (keyDigest digest (runtimes request.runtime) flags hookHash sourceHash)),
                { hashes := hashes, parsers := Function.update s.parsers request.runtime parser })

def cacheKeys : List KeyRequest → KeyState → List (Option (Except KeyError Bytes))
  | [], _ => []
  | request :: requests, s =>
      (cacheKey digest readFile fs runtimes request s).1 ::
        cacheKeys requests (cacheKey digest readFile fs runtimes request s).2

/-- The key as a function of the request and of the files. -/
def ownKey (request : KeyRequest) : Option (Except KeyError Bytes) :=
  match request.options.updateHash with
  | .error e => some (.error (.options e))
  | .ok flags =>
      match HookCall.ownHash digest readFile ⟨request.options, (runtimes request.runtime).config⟩ with
      | .error e => some (.error (.hook e))
      | .ok hookHash =>
          match memoFreeParse digest fs (runtimes request.runtime).parser
              (depth fs (runtimes request.runtime).parser request.source) request.source with
          | none => none
          | some (.error e) => some (.error (.source e))
          | some (.ok sourceHash) =>
              some (.ok (keyDigest digest (runtimes request.runtime) flags hookHash sourceHash))

def KeyRequest.hookCall (request : KeyRequest) : HookCall :=
  ⟨request.options, (runtimes request.runtime).config⟩

/-- The state agrees with a request, and so it will with those that are spelled like it. -/
structure KeyState.Agrees (s : KeyState) (requests : List KeyRequest) : Prop where
  parsers : ∀ i, Parser.State.Between digest fs (runtimes i).parser (s.parsers i)
  hashes : ∀ request ∈ requests, ∀ path, (request.hookCall runtimes).path = some path →
    ∀ hash, s.hashes.lookup path = some hash → (request.hookCall runtimes).ownHash digest readFile = .ok hash

variable {digest readFile fs runtimes}

theorem cacheKey_eq_ownKey {request : KeyRequest} {requests : List KeyRequest} {s : KeyState}
    (h : s.Agrees digest readFile fs runtimes (request :: requests))
    (halike : ∀ later ∈ requests,
      SpelledAlike digest readFile (request.hookCall runtimes) (later.hookCall runtimes)) :
    (cacheKey digest readFile fs runtimes request s).1 = ownKey digest readFile fs runtimes request ∧
      (cacheKey digest readFile fs runtimes request s).2.Agrees digest readFile fs runtimes requests := by
  have hsame : s.Agrees digest readFile fs runtimes requests :=
    ⟨h.parsers, fun later hlater => h.hashes later (List.mem_cons_of_mem _ hlater)⟩
  rw [cacheKey, ownKey]
  cases request.options.updateHash with
  | error e => exact ⟨rfl, hsame⟩
  | ok flags =>
      have hown := tableCall_eq_value (h.hashes request List.mem_cons_self)
      have hget := @getPostHookHash_eq digest readFile (request.hookCall runtimes) s.hashes
      have hcall : (request.hookCall runtimes).options = request.options := rfl
      have hconfig : (request.hookCall runtimes).config = (runtimes request.runtime).config := rfl
      rw [hcall, hconfig] at hget
      rw [hget]
      rcases htable : tableCall HookCall.path (HookCall.ownHash digest readFile) (request.hookCall runtimes)
        s.hashes with ⟨result, hashes⟩
      rw [htable] at hown
      have hown' : HookCall.ownHash digest readFile ⟨request.options, (runtimes request.runtime).config⟩ = result :=
        hown.symm
      rw [hown']
      cases result with
      | error e => exact ⟨rfl, hsame⟩
      | ok hookHash =>
          have hhashes : ∀ later ∈ requests, ∀ path, (later.hookCall runtimes).path = some path →
              ∀ hash, hashes.lookup path = some hash →
                (later.hookCall runtimes).ownHash digest readFile = .ok hash := by
            intro later hlater path hpath hash hhash
            have hafter : (tableCall HookCall.path (HookCall.ownHash digest readFile)
                (request.hookCall runtimes) s.hashes).2.lookup path = some hash := by rw [htable]; exact hhash
            rcases lookup_of_lookup_tableCall hafter with hold | ⟨hrequest, hvalue⟩
            · exact hsame.hashes later hlater path hpath hash hold
            · exact (agree_iff_spelledAlike _ _).mpr (halike later hlater) path hrequest hpath hash hvalue
          obtain ⟨result, parser, hparse, hfree, hbetween, -⟩ :=
            parseIntoHash_spec digest fs (runtimes request.runtime).parser request.source _
              (h.parsers request.runtime)
          dsimp only
          rw [hparse, hfree]
          refine ⟨by cases result <;> rfl, ?_, hhashes⟩
          intro i
          by_cases hi : i = request.runtime
          · subst hi
            simpa using hbetween
          · simpa [hi] using h.parsers i

theorem cacheKeys_eq_map {requests : List KeyRequest} {s : KeyState}
    (h : s.Agrees digest readFile fs runtimes requests)
    (halike : (requests.map (KeyRequest.hookCall runtimes)).Pairwise (SpelledAlike digest readFile)) :
    cacheKeys digest readFile fs runtimes requests s = requests.map (ownKey digest readFile fs runtimes) := by
  induction requests generalizing s with
  | nil => rfl
  | cons request requests ih =>
      rw [List.map_cons, List.pairwise_cons] at halike
      have hfirst : ∀ later ∈ requests,
          SpelledAlike digest readFile (request.hookCall runtimes) (later.hookCall runtimes) :=
        fun later hlater => halike.1 _ (List.mem_map_of_mem hlater)
      obtain ⟨hkey, hafter⟩ := cacheKey_eq_ownKey h hfirst
      rw [cacheKeys, List.map_cons, hkey, ih hafter halike.2]

theorem KeyState.agrees_new (requests : List KeyRequest) :
    KeyState.Agrees digest readFile fs runtimes {} requests :=
  ⟨fun i => Parser.State.between_new digest fs (runtimes i).parser, by simp⟩

end

/-- For hook files that stay as they are, and any calls of one thread: every call returns the digest
of its own spelling and of the file it resolves to, which is what a first call returns, exactly if
any two of the calls spell one path alike. Under the same condition the keys of requests on any
runtimes do not depend on earlier requests. -/
theorem postHookHash_own_iff_spelledAlike (digest : List Bytes → Bytes)
    (readFile : Bytes → Except Bytes Bytes) (fs : FileSystem) (runtimes : Nat → KeyRuntime) :
    (∀ calls : List HookCall,
      postHookHashes digest readFile calls [] = calls.map (HookCall.ownHash digest readFile) ↔
        calls.Pairwise (SpelledAlike digest readFile)) ∧
    (∀ call : HookCall, postHookHashes digest readFile [call] [] = [call.ownHash digest readFile]) ∧
    ∀ requests : List KeyRequest,
      (requests.map (KeyRequest.hookCall runtimes)).Pairwise (SpelledAlike digest readFile) →
      cacheKeys digest readFile fs runtimes requests {} = requests.map (ownKey digest readFile fs runtimes) := by
  refine ⟨postHookHashes_eq_map_iff, ?_, ?_⟩
  · intro call
    exact (postHookHashes_eq_map_iff [call]).mpr (List.pairwise_singleton _ _)
  · exact fun requests => cacheKeys_eq_map (KeyState.agrees_new requests)

/-- Two spellings of one hook file, under one root. -/
def HookCall.sample (hook : String) : HookCall where
  options := { postHook := some (bytes hook) }
  config := { pythonLibraryRoot := bytes "/lib" }

theorem postHookHash_depends_on_history :
    ¬∀ calls : List HookCall,
      postHookHashes Hash.FNV1a.digest (fun _ => .ok []) calls [] =
        calls.map (HookCall.ownHash Hash.FNV1a.digest fun _ => .ok []) := by
  intro h
  have hcalls := h [.sample "a.py", .sample "./a.py"]
  revert hcalls
  decide +kernel

end DeepJit.Cuda
