import DeepJit.Backend.Ascend.Options
import DeepJit.Backend.Cuda.Options
import DeepJit.Utils.Env
import DeepJit.Utils.Hash

/-!
# The metadata of an entry

The `to_json` functions and the object that both backends write to `meta.json`. Every constructor of
`json` that they use loses nothing, so the file tells the command, the configuration, the compiler
and the options apart.
-/

namespace DeepJit

/-! ### The constructors of `json` -/

namespace Json

/-- `json(int)`. -/
def ofInt (n : Int) : Json := .int64 (BitVec.ofInt 64 n)

/-- `json(const std::optional<T>&)`. -/
def ofOption {α : Type} (f : α → Json) : Option α → Json
  | none => .null
  | some a => f a

/-- `json(const std::vector<T>&)`. -/
def ofVector {α : Type} (f : α → Json) (values : List α) : Json := .array (values.map f)

/-- A constructor that says which of the admitted arguments it has. -/
structure Encodes {α : Type} (P : α → Prop) (f : α → Json) : Prop where
  not_null : ∀ a, (f a).value ≠ .null
  injective : ∀ {a b}, P a → P b → (f a).value = (f b).value → a = b

theorem encodes_bool : Encodes (fun _ => True) Json.bool where
  not_null b := by simp [value]
  injective _ _ h := by simpa [value] using h

theorem encodes_string : Encodes (fun _ => True) Json.string where
  not_null text := by simp [value]
  injective _ _ h := by simpa [value] using h

theorem encodes_ofInt : Encodes IntegerType.int.Holds ofInt where
  not_null n := by simp [ofInt, value]
  injective {m n} hm hn h := by
    have hfits : ∀ k : Int, IntegerType.int.Holds k → (BitVec.ofInt 64 k).toInt = k := by
      rintro k ⟨hlow, hhigh⟩
      simp only [IntegerType.lowest, IntegerType.highest, IntegerType.int, if_true] at hlow hhigh
      rw [BitVec.toInt_ofInt]
      exact Int.bmod_eq_of_le (by omega) (by omega)
    simp only [ofInt, value, Value.integer.injEq] at h
    rw [← hfits m hm, ← hfits n hn, h]

variable {α : Type} {P : α → Prop} {f : α → Json}

theorem Encodes.vector (hf : Encodes P f) : Encodes (fun values => ∀ a ∈ values, P a) (ofVector f) where
  not_null values := by simp [ofVector, value]
  injective {left right} hleft hright h := by
    simp only [ofVector, value, Value.array.injEq] at h
    induction left generalizing right with
    | nil =>
        cases right with
        | nil => rfl
        | cons b right => simp [values] at h
    | cons a left ih =>
        cases right with
        | nil => simp [values] at h
        | cons b right =>
            simp only [List.map_cons, values, List.cons.injEq] at h
            rw [hf.injective (hleft a (by simp)) (hright b (by simp)) h.1,
              ih (fun c hc => hleft c (by simp [hc])) (fun c hc => hright c (by simp [hc])) h.2]

/-- An absent value is not written like any present one. -/
theorem Encodes.option (hf : Encodes P f) {left right : Option α} (hleft : ∀ a ∈ left, P a) (hright : ∀ a ∈ right, P a)
    (h : (ofOption f left).value = (ofOption f right).value) : left = right := by
  cases left with
  | none =>
      cases right with
      | none => rfl
      | some b => exact absurd h.symm (hf.not_null b)
  | some a =>
      cases right with
      | none => exact absurd h (hf.not_null a)
      | some b => rw [hf.injective (hleft a rfl) (hright b rfl) h]

/-- Two dumps are equal only if they say the same. -/
theorem value_eq_of_dump_eq {v w : Json} (h : v.dump = w.dump) : v.value = w.value := by
  rw [dump_eq, dump_eq] at h
  have hvalues : some v.value = some w.value := by rw [← decode_render v.value, ← decode_render w.value, h]
  exact Option.some.inj hvalues

end Json

/-! ### `to_json` -/

/-- `Config::to_json`. -/
def Config.toJson (config : Config) : Json := .object
  [(bytes "python_library_root", .string config.pythonLibraryRoot),
    (bytes "extra_signature", .string config.extraSignature),
    (bytes "include_dirs", .ofVector .string config.includeDirs),
    (bytes "include_prefixes", .ofVector .string config.includePrefixes)]

theorem Config.eq_of_toJson {left right : Config} (h : left.toJson.value = right.toJson.value) : left = right := by
  simp only [toJson, Json.value, Json.memberValues, Json.Value.object.injEq, List.cons.injEq, Prod.mk.injEq, true_and,
    and_true, Json.Value.string.injEq] at h
  obtain ⟨hroot, hsignature, hdirs, hprefixes⟩ := h
  obtain ⟨root, signature, dirs, prefixes⟩ := left
  obtain rfl : root = right.pythonLibraryRoot := hroot
  obtain rfl : signature = right.extraSignature := hsignature
  obtain rfl := Json.encodes_string.vector.injective (by simp) (by simp) hdirs
  obtain rfl := Json.encodes_string.vector.injective (by simp) (by simp) hprefixes
  rfl

namespace Cuda

/-- `CUDA::CompilerInfo`. -/
structure CompilerInfo where
  path : Bytes
  version : Bytes

/-- `CUDA::CompilerInfo::get_hash`. -/
def CompilerInfo.getHash (info : CompilerInfo) : Bytes := Hash.getHexDigest info.version

def CompilerInfo.toJson (info : CompilerInfo) : Json := .object
  [(bytes "path", .string info.path), (bytes "version", .string info.version)]

def CompilerOptions.toJson (options : CompilerOptions) : Json := .object
  [(bytes "optimize_level", .ofOption .string options.optimizeLevel),
    (bytes "use_fast_math", .ofOption .bool options.fastMath),
    (bytes "ptxas_verbose", .ofOption .bool options.ptxasVerbose),
    (bytes "ptxas_register_usage_level", .ofOption .ofInt options.ptxasRegisterUsageLevel),
    (bytes "check_no_spills", .ofOption .bool options.checkNoSpills),
    (bytes "check_no_local_memory", .ofOption .bool options.checkNoLocalMemory),
    (bytes "with_line_info", .ofOption .bool options.withLineInfo),
    (bytes "dump_ptx", .ofOption .bool options.dumpPtx),
    (bytes "dump_sass", .ofOption .bool options.dumpSass),
    (bytes "arch", .ofOption .string options.arch),
    (bytes "nvcc_flags", .ofOption (.ofVector .string) options.nvccFlags),
    (bytes "extra_nvcc_flags", .ofVector .string options.extraNvccFlags),
    (bytes "post_hook", .ofOption .string options.postHook)]

/-- The integers of an option set are of the type `int`. -/
def CompilerOptions.HoldsInts (options : CompilerOptions) : Prop :=
  ∀ n ∈ options.ptxasRegisterUsageLevel, IntegerType.int.Holds n

/-- The object that `CUDA::compile` writes. -/
def metadata (command : Bytes) (config : Config) (info : CompilerInfo) (options : CompilerOptions) : Json := .object
  [(bytes "command", .string command), (bytes "config", config.toJson), (bytes "compiler_info", info.toJson),
    (bytes "compiler_options", options.toJson)]

end Cuda

namespace Ascend

/-- `Ascend::CompilerInfo`. -/
structure CompilerInfo where
  path : Bytes
  version : Bytes
  linkerPath : Bytes
  linkerVersion : Bytes

/-- `Ascend::CompilerInfo::get_hash`. -/
def CompilerInfo.getHash (info : CompilerInfo) : Bytes := Hash.FNV1a.digest [info.version, info.linkerVersion]

def CompilerInfo.toJson (info : CompilerInfo) : Json := .object
  [(bytes "path", .string info.path), (bytes "version", .string info.version),
    (bytes "linker_path", .string info.linkerPath), (bytes "linker_version", .string info.linkerVersion)]

def CompilerOptions.toJson (options : CompilerOptions) : Json := .object
  [(bytes "aicpu", .ofOption .bool options.aicpu),
    (bytes "optimize_level", .ofOption .string options.optimizeLevel),
    (bytes "arch", .ofOption .ofInt options.arch),
    (bytes "debug_info", .ofOption .bool options.debugInfo),
    (bytes "dump_asm", .ofOption .bool options.dumpAsm),
    (bytes "bisheng_flags", .ofOption (.ofVector .string) options.bishengFlags),
    (bytes "linker_flags", .ofOption (.ofVector .string) options.linkerFlags),
    (bytes "aicpu_flags", .ofOption (.ofVector .string) options.aicpuFlags),
    (bytes "aicpu_linker_flags", .ofOption (.ofVector .string) options.aicpuLinkerFlags),
    (bytes "extra_bisheng_flags", .ofVector .string options.extraBishengFlags),
    (bytes "extra_linker_flags", .ofVector .string options.extraLinkerFlags),
    (bytes "extra_aicpu_flags", .ofVector .string options.extraAicpuFlags),
    (bytes "extra_aicpu_linker_flags", .ofVector .string options.extraAicpuLinkerFlags)]

def CompilerOptions.HoldsInts (options : CompilerOptions) : Prop := ∀ n ∈ options.arch, IntegerType.int.Holds n

/-- The object that `Ascend::compile` writes. -/
def metadata (command : Bytes) (config : Config) (info : CompilerInfo) (options : CompilerOptions) : Json := .object
  [(bytes "command", .string command), (bytes "config", config.toJson), (bytes "compiler_info", info.toJson),
    (bytes "compiler_options", options.toJson)]

end Ascend

/-! ### What the files tell apart -/

section

open Json

private theorem option_bool {left right : Option Bool} (h : (ofOption .bool left).value = (ofOption .bool right).value) :
    left = right := encodes_bool.option (by simp) (by simp) h

private theorem option_string {left right : Option Bytes}
    (h : (ofOption .string left).value = (ofOption .string right).value) : left = right :=
  encodes_string.option (by simp) (by simp) h

private theorem vector_string {left right : List Bytes}
    (h : (ofVector .string left).value = (ofVector .string right).value) : left = right :=
  encodes_string.vector.injective (by simp) (by simp) h

private theorem option_vector {left right : Option (List Bytes)}
    (h : (ofOption (ofVector .string) left).value = (ofOption (ofVector .string) right).value) : left = right :=
  encodes_string.vector.option (by simp) (by simp) h

theorem Cuda.CompilerOptions.eq_of_toJson {left right : Cuda.CompilerOptions} (hleft : left.HoldsInts)
    (hright : right.HoldsInts) (h : left.toJson.value = right.toJson.value) : left = right := by
  simp only [toJson, Json.value, memberValues, Value.object.injEq, List.cons.injEq, Prod.mk.injEq, true_and,
    and_true] at h
  obtain ⟨hlevel, hmath, hverbose, husage, hspills, hlocal, hline, hptx, hsass, harch, hflags, hextra, hhook⟩ := h
  obtain ⟨⟩ := left
  obtain ⟨⟩ := right
  simp only [Cuda.CompilerOptions.mk.injEq]
  exact ⟨option_string hlevel, option_bool hmath, option_bool hverbose, encodes_ofInt.option hleft hright husage,
    option_bool hspills, option_bool hlocal, option_bool hline, option_bool hptx, option_bool hsass,
    option_string harch, option_vector hflags, vector_string hextra, option_string hhook⟩

theorem Ascend.CompilerOptions.eq_of_toJson {left right : Ascend.CompilerOptions} (hleft : left.HoldsInts)
    (hright : right.HoldsInts) (h : left.toJson.value = right.toJson.value) : left = right := by
  simp only [toJson, Json.value, memberValues, Value.object.injEq, List.cons.injEq, Prod.mk.injEq, true_and,
    and_true] at h
  obtain ⟨haicpu, hlevel, harch, hdebug, hdump, hflags, hlinker, haicpuFlags, haicpuLinker, hextra, hextraLinker,
    hextraAicpu, hextraAicpuLinker⟩ := h
  obtain ⟨⟩ := left
  obtain ⟨⟩ := right
  simp only [Ascend.CompilerOptions.mk.injEq]
  exact ⟨option_bool haicpu, option_string hlevel, encodes_ofInt.option hleft hright harch, option_bool hdebug,
    option_bool hdump, option_vector hflags, option_vector hlinker, option_vector haicpuFlags,
    option_vector haicpuLinker, vector_string hextra, vector_string hextraLinker, vector_string hextraAicpu,
    vector_string hextraAicpuLinker⟩

theorem Cuda.CompilerInfo.eq_of_toJson {left right : Cuda.CompilerInfo}
    (h : left.toJson.value = right.toJson.value) : left = right := by
  obtain ⟨⟩ := left
  obtain ⟨⟩ := right
  simpa [toJson, Json.value, memberValues] using h

theorem Ascend.CompilerInfo.eq_of_toJson {left right : Ascend.CompilerInfo}
    (h : left.toJson.value = right.toJson.value) : left = right := by
  obtain ⟨⟩ := left
  obtain ⟨⟩ := right
  simpa [toJson, Json.value, memberValues] using h

end

/-- Two builds of one backend write the same `meta.json` exactly if they agree in the command, the
configuration, the compiler and every option. -/
theorem metadata_exact :
    (∀ (command command' : Bytes) (config config' : Config) (info info' : Cuda.CompilerInfo)
      (options options' : Cuda.CompilerOptions), options.HoldsInts → options'.HoldsInts →
      ((Cuda.metadata command config info options).dump = (Cuda.metadata command' config' info' options').dump ↔
        command = command' ∧ config = config' ∧ info = info' ∧ options = options')) ∧
    ∀ (command command' : Bytes) (config config' : Config) (info info' : Ascend.CompilerInfo)
      (options options' : Ascend.CompilerOptions), options.HoldsInts → options'.HoldsInts →
      ((Ascend.metadata command config info options).dump = (Ascend.metadata command' config' info' options').dump ↔
        command = command' ∧ config = config' ∧ info = info' ∧ options = options') := by
  constructor
  · intro command command' config config' info info' options options' hints hints'
    constructor
    · intro h
      have hvalue := Json.value_eq_of_dump_eq h
      simp only [Cuda.metadata, Json.value, Json.memberValues, Json.Value.object.injEq, List.cons.injEq,
        Prod.mk.injEq, true_and, and_true, Json.Value.string.injEq] at hvalue
      obtain ⟨hcommand, hconfig, hinfo, hoptions⟩ := hvalue
      exact ⟨hcommand, Config.eq_of_toJson hconfig, Cuda.CompilerInfo.eq_of_toJson hinfo,
        Cuda.CompilerOptions.eq_of_toJson hints hints' hoptions⟩
    · rintro ⟨rfl, rfl, rfl, rfl⟩
      rfl
  · intro command command' config config' info info' options options' hints hints'
    constructor
    · intro h
      have hvalue := Json.value_eq_of_dump_eq h
      simp only [Ascend.metadata, Json.value, Json.memberValues, Json.Value.object.injEq, List.cons.injEq,
        Prod.mk.injEq, true_and, and_true, Json.Value.string.injEq] at hvalue
      obtain ⟨hcommand, hconfig, hinfo, hoptions⟩ := hvalue
      exact ⟨hcommand, Config.eq_of_toJson hconfig, Ascend.CompilerInfo.eq_of_toJson hinfo,
        Ascend.CompilerOptions.eq_of_toJson hints hints' hoptions⟩
    · rintro ⟨rfl, rfl, rfl, rfl⟩
      rfl

end DeepJit
