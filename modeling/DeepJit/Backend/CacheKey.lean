import DeepJit.Backend.Ascend.Options
import DeepJit.Backend.Cuda.Options

/-!
# What the option part of the cache key determines

Two option sets with the same key components share their cache entries. `Build` is what backend
compile makes of an option set apart from the dumps: the words of the compiler and linker calls, the
post hook and the verdict on every compiler output. The components determine the words and the hook
on both backends. They determine the verdict of the Ascend backend, which looks at no output, but
not that of CUDA: `check_no_spills` and `check_no_local_memory` reach the key only through the flag
they add, which a free-form list can add as well.
-/

namespace DeepJit

structure Build where
  argumentWords : List (List Bytes)
  hook : Option Bytes
  accepts : Bytes → Bool

namespace Cuda

/-- The components of the key that depend on the options, before hashing. -/
def keyComponents (options : CompilerOptions) (config : Config)
    (readFile : Bytes → Except Bytes Bytes) :
    Except Bytes (List (List Bytes)) :=
  match options.updateHash, options.postHookComponents config readFile with
  | .ok flags, .ok hook => .ok (flags.map ([·]) ++ [hook])
  | .error e, _ => .error e
  | _, .error e => .error e

/-- `CUDA::compile` in the directory `dir`. -/
def build (toolkit : Toolkit) (config : Config) (dir : Bytes) (options : CompilerOptions) :
    Except Bytes Build :=
  match options.getFlags with
  | .error e => .error e
  | .ok flags => .ok
      { argumentWords := [Str.words (Str.join (compileArgs toolkit config dir flags))]
        hook := options.postHook.map (hookCommand config dir)
        accepts := accepts options }

/-- The two checks of an option set that look at the compiler output. -/
def outputChecks (options : CompilerOptions) : Bool × Bool :=
  (options.checkNoSpills.getD false, options.checkNoLocalMemory.getD false)

theorem accepts_eq_iff (left right : CompilerOptions) :
    accepts left = accepts right ↔ outputChecks left = outputChecks right := by
  constructor
  · intro h
    -- one output that only the spill check rejects, one that only the local memory check rejects
    have hspill := congrFun h (bytes "spilled to local memory")
    have hlocal := congrFun h (bytes "local memory used")
    have h₁ : reportsSpills (bytes "spilled to local memory") = true := by decide
    have h₂ : reportsLocalMemory (bytes "spilled to local memory") = false := by decide
    have h₃ : reportsSpills (bytes "local memory used") = false := by decide
    have h₄ : reportsLocalMemory (bytes "local memory used") = true := by decide
    simp only [accepts, h₁, h₂, h₃, h₄, Bool.not_true, Bool.or_false, Bool.not_false, Bool.or_true,
      Bool.and_true, Bool.true_and, Bool.not_inj_iff] at hspill hlocal
    rw [outputChecks, outputChecks, hspill, hlocal]
  · intro h
    rw [outputChecks, outputChecks, Prod.mk.injEq] at h
    funext output
    rw [accepts, accepts, h.1, h.2]

theorem build_of_keyComponents {config : Config}
    {readFile : Bytes → Except Bytes Bytes} {options : CompilerOptions} {key : List (List Bytes)}
    (h : keyComponents options config readFile = .ok key) (toolkit : Toolkit) (dir : Bytes) :
    ∃ flags hook, options.getFlags = .ok flags ∧
    options.postHookComponents config readFile = .ok hook ∧
      key = [[Str.join flags], hook] ∧ build toolkit config dir options = .ok
        { argumentWords := [Str.words (Str.join (compileArgs toolkit config dir flags))]
          hook := options.postHook.map (hookCommand config dir)
          accepts := accepts options } := by
  unfold keyComponents CompilerOptions.updateHash at h
  cases hflags : options.getFlags with
  | error e => simp [hflags] at h
  | ok flags =>
      cases hhook : options.postHookComponents config readFile with
      | error e => simp [hflags, hhook] at h
      | ok hook =>
          simp only [hflags, hhook, Except.ok.injEq] at h
          exact ⟨flags, hook, rfl, rfl, h.symm, by simp [build, hflags]⟩

/-- Equal hook components come from equal hooks. -/
theorem postHook_eq_of_components {config : Config} {readFile : Bytes → Except Bytes Bytes}
    {left right : CompilerOptions} {components : List Bytes}
    (hleft : left.postHookComponents config readFile = .ok components)
    (hright : right.postHookComponents config readFile = .ok components) :
    left.postHook = right.postHook := by
  unfold CompilerOptions.postHookComponents at hleft hright
  cases hl : left.postHook with
  | none =>
      simp only [hl, Except.ok.injEq] at hleft
      subst hleft
      cases hr : right.postHook with
      | none => rfl
      | some hook => cases hread : readFile (config.getPythonPath hook) <;> simp [hr, hread] at hright
  | some hook =>
      cases hread : readFile (config.getPythonPath hook) with
      | error e => simp [hl, hread] at hleft
      | ok content =>
          simp only [hl, hread, Except.ok.injEq] at hleft
          subst hleft
          cases hr : right.postHook with
          | none => simp [hr] at hright
          | some hook' =>
              cases hread' : readFile (config.getPythonPath hook') with
              | error e => simp [hr, hread'] at hright
              | ok content' =>
                  simp only [hr, hread', Except.ok.injEq, List.cons.injEq] at hright
                  rw [hright.1]

/-- The words of the NVCC call depend on the flags through their join only. -/
theorem words_compileArgs (toolkit : Toolkit) (config : Config) (dir : Bytes)
    {left right : List Bytes} (h : Str.join left = Str.join right) :
    Str.words (Str.join (compileArgs toolkit config dir left)) =
      Str.words (Str.join (compileArgs toolkit config dir right)) := by
  have hwords : left.flatMap Str.words = right.flatMap Str.words := by
    rw [← Str.words_join, ← Str.words_join, h]
  simp only [Str.words_join, compileArgs, List.flatMap_append, hwords]

end Cuda

namespace Ascend

/-- The components of the key that depend on the options, before hashing. There is no post hook. -/
def keyComponents (options : CompilerOptions) : Except Bytes (List (List Bytes)) :=
  match options.updateHash with
  | .error e => .error e
  | .ok flags => .ok (flags.map ([·]) ++ [[]])

/-- `Ascend::compile` in the directory `dir`. -/
def build (toolkit : Toolkit) (config : Config) (dir : Bytes) (options : CompilerOptions) :
    Except Bytes Build :=
  match options.getBishengFlags with
  | .error e => .error e
  | .ok flags => .ok
      { argumentWords :=
          [Str.words (Str.join (bishengArgs toolkit config (options.aicpu.getD false) dir flags)),
            Str.words (Str.join (linkerArgs toolkit (options.aicpu.getD false) dir options.getLinkerFlags))]
        hook := none
        accepts := fun _ => true }

theorem build_of_keyComponents {options : CompilerOptions} {key : List (List Bytes)}
    (h : keyComponents options = .ok key) :
    ∃ flags, options.getBishengFlags = .ok flags ∧
      key = (if options.aicpu.getD false then [[bytes "aicpu"]] else []) ++
        [[Str.join flags], [Str.join options.getLinkerFlags], []] := by
  unfold keyComponents CompilerOptions.updateHash at h
  cases hflags : options.getBishengFlags with
  | error e => simp [hflags] at h
  | ok flags =>
      simp only [hflags, Except.ok.injEq] at h
      refine ⟨flags, rfl, ?_⟩
      rw [← h]
      by_cases haicpu : options.aicpu.getD false <;> simp [haicpu]

/-- Equal components come from the same mode and equal joins. -/
theorem mode_eq_of_keyComponents {left right : CompilerOptions} {key : List (List Bytes)}
    (hleft : keyComponents left = .ok key) (hright : keyComponents right = .ok key) :
    ∃ flags flags', left.getBishengFlags = .ok flags ∧ right.getBishengFlags = .ok flags' ∧
      left.aicpu.getD false = right.aicpu.getD false ∧ Str.join flags = Str.join flags' ∧
      Str.join left.getLinkerFlags = Str.join right.getLinkerFlags := by
  obtain ⟨flags, hflags, hkey⟩ := build_of_keyComponents hleft
  obtain ⟨flags', hflags', hkey'⟩ := build_of_keyComponents hright
  rw [hkey] at hkey'
  refine ⟨flags, flags', hflags, hflags', ?_⟩
  by_cases hl : left.aicpu.getD false <;> by_cases hr : right.aicpu.getD false <;>
    simp_all

theorem words_bishengArgs (toolkit : Toolkit) (config : Config) (aicpu : Bool) (dir : Bytes)
    {left right : List Bytes} (h : Str.join left = Str.join right) :
    Str.words (Str.join (bishengArgs toolkit config aicpu dir left)) =
      Str.words (Str.join (bishengArgs toolkit config aicpu dir right)) := by
  have hwords : left.flatMap Str.words = right.flatMap Str.words := by
    rw [← Str.words_join, ← Str.words_join, h]
  simp only [Str.words_join, bishengArgs, baseBishengArgs, List.flatMap_append, hwords]

theorem words_linkerArgs (toolkit : Toolkit) (aicpu : Bool) (dir : Bytes) {left right : List Bytes}
    (h : Str.join left = Str.join right) :
    Str.words (Str.join (linkerArgs toolkit aicpu dir left)) =
      Str.words (Str.join (linkerArgs toolkit aicpu dir right)) := by
  have hwords : left.flatMap Str.words = right.flatMap Str.words := by
    rw [← Str.words_join, ← Str.words_join, h]
  simp only [Str.words_join, linkerArgs, List.flatMap_append, hwords]

/-- Ascend builds option sets with equal components the same way. -/
theorem build_eq_of_keyComponents {left right : CompilerOptions} {key : List (List Bytes)}
    (hleft : keyComponents left = .ok key) (hright : keyComponents right = .ok key)
    (toolkit : Toolkit) (config : Config) (dir : Bytes) :
    ∃ result, build toolkit config dir left = .ok result ∧
    build toolkit config dir right = .ok result := by
  obtain ⟨flags, flags', hflags, hflags', haicpu, hjoin, hlinker⟩ :=
    mode_eq_of_keyComponents hleft hright
  refine ⟨_, by rw [build, hflags], ?_⟩
  rw [build, hflags']
  simp only [haicpu, words_bishengArgs toolkit config _ dir hjoin,
    words_linkerArgs toolkit _ dir hlinker]

end Ascend

/-! ### Two option sets with one key -/

/-- Two option sets with the same key components, in the same configuration and with the same
compiler, build the same way apart from the dumps: on CUDA exactly if the same output checks are
effective in both, on Ascend always. -/
theorem builds_agree_iff_outputChecks_eq (config : Config) (readFile : Bytes → Except Bytes Bytes)
    (dir : Bytes) :
    (∀ (toolkit : Cuda.Toolkit) (left right : Cuda.CompilerOptions) (key : List (List Bytes)),
      Cuda.keyComponents left config readFile = .ok key →
      Cuda.keyComponents right config readFile = .ok key →
      ((∃ result, Cuda.build toolkit config dir left = .ok result ∧
          Cuda.build toolkit config dir right = .ok result) ↔
        Cuda.outputChecks left = Cuda.outputChecks right)) ∧
    ∀ (toolkit : Ascend.Toolkit) (left right : Ascend.CompilerOptions) (key : List (List Bytes)),
      Ascend.keyComponents left = .ok key → Ascend.keyComponents right = .ok key →
      ∃ result, Ascend.build toolkit config dir left = .ok result ∧
        Ascend.build toolkit config dir right = .ok result := by
  refine ⟨?_, fun toolkit left right key hleft hright =>
    Ascend.build_eq_of_keyComponents hleft hright toolkit config dir⟩
  intro toolkit left right key hleft hright
  obtain ⟨flags, hook, -, hhook, hkey, hbuild⟩ := Cuda.build_of_keyComponents hleft toolkit dir
  obtain ⟨flags', hook', -, hhook', hkey', hbuild'⟩ :=
    Cuda.build_of_keyComponents hright toolkit dir
  have heq : [[Str.join flags], hook] = [[Str.join flags'], hook'] := by rw [← hkey, ← hkey']
  simp only [List.cons.injEq, and_true] at heq
  have hpost : left.postHook = right.postHook :=
    Cuda.postHook_eq_of_components hhook (heq.2 ▸ hhook')
  have hwords := Cuda.words_compileArgs toolkit config dir heq.1
  rw [hbuild, hbuild', hpost, hwords, ← Cuda.accepts_eq_iff]
  constructor
  · rintro ⟨result, h, h'⟩
    rw [← h', Except.ok.injEq, Build.mk.injEq] at h
    exact h.2.2
  · intro haccepts
    exact ⟨_, rfl, by rw [haccepts]⟩

namespace Cuda

/-- Options for one architecture, with the given spill check and free-form flags. -/
def spillOptions (checkNoSpills : Bool) (flags : List Bytes) : CompilerOptions where
  optimizeLevel := some (bytes "3")
  ptxasRegisterUsageLevel := some 10
  checkNoSpills := some checkNoSpills
  arch := some (bytes "90a")
  nvccFlags := some flags

end Cuda

theorem builds_agree_iff_outputChecks_eq_spillOptions :
    ((∃ result, Cuda.build ⟨bytes "nvcc", none⟩ ⟨[], [], [], []⟩ [] (Cuda.spillOptions true []) = .ok result ∧
        Cuda.build ⟨bytes "nvcc", none⟩ ⟨[], [], [], []⟩ []
          (Cuda.spillOptions false [bytes "--ptxas-options=--warn-on-spills"]) = .ok result) ↔
      Cuda.outputChecks (Cuda.spillOptions true []) =
        Cuda.outputChecks (Cuda.spillOptions false [bytes "--ptxas-options=--warn-on-spills"])) ∧
    ∃ result, Ascend.build ⟨[], [], []⟩ ⟨[], [], [], []⟩ []
        { optimizeLevel := some (bytes "3"), arch := some 3510 } = .ok result ∧
      Ascend.build ⟨[], [], []⟩ ⟨[], [], [], []⟩ []
        { optimizeLevel := some (bytes "3"), arch := some 3510, aicpuFlags := some [bytes "-g"] } = .ok result :=
  ⟨(builds_agree_iff_outputChecks_eq ⟨[], [], [], []⟩ (fun _ => .error []) []).1 _ _ _ _ rfl rfl,
    (builds_agree_iff_outputChecks_eq ⟨[], [], [], []⟩ (fun _ => .error []) []).2 _ _ _ _ rfl rfl⟩

/-- A free-form flag stands in for the spill check in the key, but not after the compiler ran. -/
theorem spillOptions_share_key_and_disagree :
    ∃ key, Cuda.keyComponents (Cuda.spillOptions true []) ⟨[], [], [], []⟩ (fun _ => .error []) = .ok key ∧
      Cuda.keyComponents (Cuda.spillOptions false [bytes "--ptxas-options=--warn-on-spills"])
        ⟨[], [], [], []⟩ (fun _ => .error []) = .ok key ∧
      Cuda.accepts (Cuda.spillOptions true []) (bytes "8 bytes spilled to local memory") = false ∧
      Cuda.accepts (Cuda.spillOptions false [bytes "--ptxas-options=--warn-on-spills"])
        (bytes "8 bytes spilled to local memory") = true :=
  ⟨_, rfl, rfl, by decide, by decide⟩

end DeepJit
