import DeepJit.Backend.Builder
import DeepJit.Backend.Metadata

/-!
# Compiling for CUDA

`CUDA::compile`, from the source it writes to the metadata it ends with. The metadata is written
last, when every command has succeeded and every output has been checked.
-/

namespace DeepJit

/-- What a backend reads of its surroundings. -/
structure Surroundings where
  env : Env
  getenv : Getenv
  config : Config
  currentPath : Bytes

/-- `std::filesystem::absolute(dir).lexically_normal()`. It is taken to name the same directory. -/
def Surroundings.normalize (surroundings : Surroundings) (dir : Bytes) : Bytes :=
  lexicallyNormal (appendPath surroundings.currentPath dir)

namespace Cuda

def ptxCommand (dir : Bytes) (args : List Bytes) : Bytes :=
  cdCommand dir ++ Str.join ((args.set 2 (bytes "--ptx")).set 4 (appendPath dir (bytes "kernel.ptx")))

def sassCommand (dir cuobjdump : Bytes) : Bytes :=
  cdCommand dir ++ cuobjdump ++ bytes " --dump-sass " ++ appendPath dir (bytes "kernel.cubin")

section

variable (fallbackDisabled : Bool) (answers : Nat → Answer) (surroundings : Surroundings) (toolkit : Toolkit)
  (info : CompilerInfo)

/-- The two assertions on the compiler output. -/
def checkSpills (options : CompilerOptions) (compilerOutput : Bytes) : Except Bytes Unit :=
  hostAssert (!options.checkNoSpills.getD false || !reportsSpills compilerOutput)
    "not options.check_no_spills.value_or(false) or not std::regex_search(compiler_output, std::regex(R\"(spilled\\s+to\\s+local\\s+memory)\", std::regex::icase))"
    (bytes "PTXAS reported register spills:\n" ++ compilerOutput)

def checkLocalMemory (options : CompilerOptions) (compilerOutput : Bytes) : Except Bytes Unit :=
  hostAssert (!options.checkNoLocalMemory.getD false || !reportsLocalMemory compilerOutput)
    "not options.check_no_local_memory.value_or(false) or not std::regex_search(compiler_output, std::regex(R\"(local\\s+memory\\s+used)\", std::regex::icase))"
    (bytes "PTXAS reported local memory usage:\n" ++ compilerOutput)

def printVerbose (options : CompilerOptions) (compilerOutput : Bytes) : Builder Unit :=
  if options.ptxasVerbose.getD false then putText compilerOutput else pure ()

def runPostHook (options : CompilerOptions) (printCommand : Bool) (dir : Bytes) : Builder Unit :=
  match options.postHook with
  | none => pure ()
  | some hook => do
      let _ ← runCommand answers printCommand (hookCommand surroundings.config dir hook)
      pure ()

def dumpPtx (options : CompilerOptions) (printCommand : Bool) (dir : Bytes) (args : List Bytes) : Builder Unit :=
  if options.dumpPtx.getD false then do
    let _ ← runCommand answers printCommand (ptxCommand dir args)
    pure ()
  else pure ()

/-- The SASS dump. The text stays empty without one. -/
def dumpSass (options : CompilerOptions) (printCommand : Bool) (dir : Bytes) : Builder Bytes :=
  if options.dumpSass.getD false then do
    let cuobjdump ← check answers assertText
      (toolkit.cuobjdump.elim (.error (bytes "toolkit.cuobjdump.has_value()")) .ok)
    let sass ← runCommand answers printCommand (sassCommand dir cuobjdump)
    check answers assertText (hostAssert (sass ≠ []) "not sass.empty()"
      (bytes "cuobjdump did not produce valid SASS for " ++ appendPath dir (bytes "kernel.cubin")))
    pure sass
  else pure []

/-- The last I/O task: validate the outputs and finish the writes. -/
def finish (options : CompilerOptions) (dir sass metadata : Bytes) (answer : Answer) (files : Files) :
    Except Bytes (Unit × Files) :=
  if (files (bytes "kernel.cubin")).getD [] = [] then .error (assertText answer.site
    (bytes "std::filesystem::is_regular_file(cubin_path) and std::filesystem::file_size(cubin_path) != 0: NVCC did not produce a valid CUBIN: " ++
      appendPath dir (bytes "kernel.cubin")))
  else if options.dumpPtx.getD false ∧ (files (bytes "kernel.ptx")).getD [] = [] then .error (assertText answer.site
    (bytes "std::filesystem::is_regular_file(ptx_path) and std::filesystem::file_size(ptx_path) != 0: NVCC did not produce a valid PTX: " ++
      appendPath dir (bytes "kernel.ptx")))
  else
    let files := if sass = [] then files else Function.update files (bytes "kernel.sass") (some sass)
    .ok ((), Function.update files (bytes "meta.json") (some metadata))

/-- `CUDA::compile`. -/
def compile (source dir : Bytes) (options : CompilerOptions) : Builder Unit := do
  let debug ← check answers panicText (surroundings.env.get surroundings.getenv (bytes "JIT_DEBUG") false)
  let printCommand ← check answers panicText
    (surroundings.env.orGet surroundings.getenv debug (bytes "JIT_PRINT_COMPILER_COMMAND"))
  let dir ← runTask fallbackDisabled answers fun _ files =>
    .ok (surroundings.normalize dir, Function.update files (bytes "kernel.cu") (some source))
  let flags ← check answers assertText options.getFlags
  let args := compileArgs toolkit surroundings.config dir flags
  let compilerOutput ← runCommand answers printCommand (cdCommand dir ++ Str.join args)
  printVerbose options compilerOutput
  check answers assertText (checkSpills options compilerOutput)
  check answers assertText (checkLocalMemory options compilerOutput)
  runPostHook answers surroundings options printCommand dir
  dumpPtx answers options printCommand dir args
  let sass ← dumpSass answers toolkit options printCommand dir
  runTask fallbackDisabled answers
    (finish options dir sass (metadata (Str.join args) surroundings.config info options).dump)

/-! ### What a build does -/

/-- The commands of a build in the directory `dir`, in their order. -/
def plan (options : CompilerOptions) (dir : Bytes) (flags : List Bytes) : List Bytes :=
  let args := compileArgs toolkit surroundings.config dir flags
  [cdCommand dir ++ Str.join args] ++ options.postHook.toList.map (hookCommand surroundings.config dir) ++
    (if options.dumpPtx.getD false then [ptxCommand dir args] else []) ++
    if options.dumpSass.getD false then toolkit.cuobjdump.toList.map (sassCommand dir) else []

/-- What is there when a build returns. -/
structure Built (options : CompilerOptions) (source dir : Bytes) (flags : List Bytes) (job : Job) : Prop where
  /-- Every command was run, in order, and exited with 0, the compiler on the source. -/
  commands : job.commands.map Prod.fst = plan surroundings toolkit options dir flags
  exited : ∀ i < (plan surroundings toolkit options dir flags).length,
    ∃ output site, (answers (i + 1)).command = .exited 0 output site
  source : ∀ files ∈ (job.commands.map Prod.snd).head?, files (bytes "kernel.cu") = some source
  accepted : ∃ output site, (answers 1).command = .exited 0 output site ∧ accepts options output = true
  cubin : ∃ cubin ≠ [], job.files (bytes "kernel.cubin") = some cubin
  ptx : options.dumpPtx.getD false = true → ∃ ptx ≠ [], job.files (bytes "kernel.ptx") = some ptx
  /-- The SASS is what the last command wrote. -/
  sass : options.dumpSass.getD false = true → ∃ sass site, sass ≠ [] ∧
    (answers (plan surroundings toolkit options dir flags).length).command = .exited 0 sass site ∧
    job.files (bytes "kernel.sass") = some sass
  metadata : job.files (bytes "meta.json") =
    some (metadata (Str.join (compileArgs toolkit surroundings.config dir flags)) surroundings.config info options).dump

/-- The commands that a build can come to. -/
def planned (options : CompilerOptions) (dir : Bytes) : List Bytes :=
  match options.getFlags with
  | .error _ => []
  | .ok flags => plan surroundings toolkit options dir flags

end

section

variable {fallbackDisabled : Bool} {answers : Nat → Answer} {surroundings : Surroundings} {toolkit : Toolkit}
  {info : CompilerInfo} {initial : Files} {source dir : Bytes} {options : CompilerOptions}
  {ran commands : List Bytes} {job : Job}

theorem runPostHook_spec (h : Progress answers initial (bytes "kernel.cu") source ran job) (printCommand : Bool)
    (hplan : ran ++ options.postHook.toList.map (hookCommand surroundings.config dir) <+: commands) :
    Post (fun _ => Progress answers initial (bytes "kernel.cu") source
        (ran ++ options.postHook.toList.map (hookCommand surroundings.config dir)))
      (fun _ => Stopped answers initial commands) (runPostHook answers surroundings options printCommand dir job) := by
  unfold runPostHook
  cases hhook : options.postHook with
  | none => simpa [hhook] using h
  | some hook =>
      rw [hhook] at hplan
      exact Action.post_bind (h.post_runCommand printCommand hplan (by decide)) fun _ _ hran => hran.1

theorem printVerbose_spec (h : Progress answers initial (bytes "kernel.cu") source ran job) (output : Bytes) :
    Post (fun _ => Progress answers initial (bytes "kernel.cu") source ran) (fun _ => Stopped answers initial commands)
      (printVerbose options output job) := by
  unfold printVerbose
  by_cases hverbose : options.ptxasVerbose.getD false = true
  · rw [if_pos hverbose]
    exact h.post_putText output
  · rw [if_neg hverbose]
    exact h

theorem dumpPtx_spec (h : Progress answers initial (bytes "kernel.cu") source ran job) (printCommand : Bool)
    (args : List Bytes)
    (hplan : ran ++ (if options.dumpPtx.getD false then [ptxCommand dir args] else []) <+: commands) :
    Post (fun _ => Progress answers initial (bytes "kernel.cu") source
        (ran ++ if options.dumpPtx.getD false then [ptxCommand dir args] else []))
      (fun _ => Stopped answers initial commands) (dumpPtx answers options printCommand dir args job) := by
  unfold dumpPtx
  by_cases hdump : options.dumpPtx.getD false = true
  · rw [if_pos hdump] at hplan
    simp only [hdump, if_true]
    exact Action.post_bind (h.post_runCommand printCommand hplan (by decide)) fun _ _ hran => hran.1
  · rw [Bool.not_eq_true] at hdump
    simp only [hdump, Bool.false_eq_true, if_false, List.append_nil]
    exact h

/-- The text of the SASS dump is what the command wrote, and it is empty only without a dump. -/
theorem dumpSass_spec (h : Progress answers initial (bytes "kernel.cu") source ran job) (printCommand : Bool)
    (hplan : ran ++ (if options.dumpSass.getD false then toolkit.cuobjdump.toList.map (sassCommand dir) else []) <+:
      commands) :
    Post (fun sass job' => Progress answers initial (bytes "kernel.cu") source
          (ran ++ if options.dumpSass.getD false then toolkit.cuobjdump.toList.map (sassCommand dir) else []) job' ∧
        (options.dumpSass.getD false = false → sass = []) ∧
        (options.dumpSass.getD false = true → sass ≠ [] ∧ ∃ site, (answers (ran ++
          if options.dumpSass.getD false then toolkit.cuobjdump.toList.map (sassCommand dir) else []).length).command =
            .exited 0 sass site))
      (fun _ => Stopped answers initial commands) (dumpSass answers toolkit options printCommand dir job) := by
  unfold dumpSass
  by_cases hdump : options.dumpSass.getD false = true
  · simp only [hdump, if_true] at hplan ⊢
    have hran : ran <+: commands := (List.prefix_append ran _).trans hplan
    refine Action.post_bind (h.post_check _ _ hran (by decide)) fun cuobjdump t hcheck => ?_
    obtain ⟨ht, hcuobjdump⟩ := hcheck
    have hsome : toolkit.cuobjdump = some cuobjdump := by
      cases hoption : toolkit.cuobjdump with
      | none => simp [hoption] at hcuobjdump
      | some path =>
          simp only [hoption, Option.elim_some, Except.ok.injEq] at hcuobjdump
          rw [hcuobjdump]
    rw [hsome] at hplan ⊢
    refine Action.post_bind (ht.post_runCommand printCommand hplan (by decide)) fun sass t' hcommand => ?_
    obtain ⟨ht', site, hexited⟩ := hcommand
    refine Action.post_bind (ht'.post_check _ _ hplan (by decide)) fun _ t'' hassert => ?_
    obtain ⟨ht'', hnonempty⟩ := hassert
    refine ⟨ht'', by simp, fun _ => ⟨?_, site, ?_⟩⟩
    · rintro rfl
      simp [hostAssert] at hnonempty
    · simpa using hexited
  · rw [Bool.not_eq_true] at hdump
    simp only [hdump, Bool.false_eq_true, if_false, List.append_nil]
    exact ⟨h, by simp, by simp⟩

/-- The last task writes nothing unless all outputs are valid. -/
theorem finish_ok {sass metadata : Bytes} {answer : Answer} {files files' : Files} {u : Unit}
    (h : finish options dir sass metadata answer files = .ok (u, files')) :
    (∃ cubin ≠ [], files' (bytes "kernel.cubin") = some cubin) ∧
      (options.dumpPtx.getD false = true → ∃ ptx ≠ [], files' (bytes "kernel.ptx") = some ptx) ∧
      (sass ≠ [] → files' (bytes "kernel.sass") = some sass) ∧ files' (bytes "meta.json") = some metadata := by
  have hvalid : ∀ name : Bytes, (files name).getD [] ≠ [] → ∃ content ≠ [], files name = some content := by
    intro name hname
    cases hcontent : files name with
    | none => simp [hcontent] at hname
    | some content =>
        rw [hcontent] at hname
        exact ⟨content, hname, rfl⟩
  unfold finish at h
  by_cases hcubin : (files (bytes "kernel.cubin")).getD [] = []
  · simp [hcubin] at h
  · by_cases hptx : options.dumpPtx.getD false = true ∧ (files (bytes "kernel.ptx")).getD [] = []
    · simp [hcubin, hptx] at h
    · simp only [hcubin, hptx, if_false, Except.ok.injEq, Prod.mk.injEq, true_and] at h
      have hother : ∀ name : Bytes, name ≠ bytes "meta.json" → name ≠ bytes "kernel.sass" →
          files' name = files name := by
        intro name hmeta hsass
        rw [← h, Function.update_of_ne hmeta]
        by_cases hempty : sass = []
        · rw [if_pos hempty]
        · rw [if_neg hempty, Function.update_of_ne hsass]
      refine ⟨?_, fun hdump => ?_, fun hne => ?_, by rw [← h, Function.update_self]⟩
      · rw [hother _ (by decide) (by decide)]
        exact hvalid _ hcubin
      · rw [hother _ (by decide) (by decide)]
        exact hvalid _ fun hempty => hptx ⟨hdump, hempty⟩
      · have hne' : bytes "kernel.sass" ≠ bytes "meta.json" := by decide
        rw [← h, Function.update_of_ne hne', if_neg hne, Function.update_self]

theorem accepts_of_checks {output : Bytes} {u v : Unit} (hspills : checkSpills options output = .ok u)
    (hlocal : checkLocalMemory options output = .ok v) : accepts options output = true := by
  unfold checkSpills hostAssert at hspills
  unfold checkLocalMemory hostAssert at hlocal
  rw [accepts, Bool.and_eq_true]
  constructor
  · by_contra hreported
    simp [hreported] at hspills
  · by_contra hreported
    simp [hreported] at hlocal

theorem compile_spec (hnew : job.commands = [] ∧ job.answered = 0) :
    Post (fun _ job' => ∃ flags, options.getFlags = .ok flags ∧
        Built answers surroundings toolkit info options source (surroundings.normalize dir) flags job')
      (fun _ => Stopped answers job.files (planned surroundings toolkit options (surroundings.normalize dir)))
      (compile fallbackDisabled answers surroundings toolkit info source dir options job) := by
  have hstart : Stopped answers job.files
      (planned surroundings toolkit options (surroundings.normalize dir)) job :=
    ⟨by simp [hnew.1], fun _ _ => rfl⟩
  unfold compile
  refine Action.post_bind (Q := fun _ job' => job = job') (post_check (fun _ _ => rfl) fun _ => hstart)
    fun debug t ht => ?_
  subst ht
  refine Action.post_bind (Q := fun _ job' => job = job') (post_check (fun _ _ => rfl) fun _ => hstart)
    fun printCommand t' ht => ?_
  subst ht
  refine Action.post_bind (post_writeSource hnew fun _ _ => rfl) fun dir' job₁ hsource => ?_
  obtain ⟨hsource, rfl⟩ := hsource
  refine Action.post_bind (hsource.post_check _ _ List.nil_prefix (by decide)) fun flags job₂ hflags => ?_
  obtain ⟨hran, hflags⟩ := hflags
  have hplanned : planned surroundings toolkit options (surroundings.normalize dir) =
      plan surroundings toolkit options (surroundings.normalize dir) flags := by rw [planned, hflags]
  rw [hplanned]
  have hcompiler : [] ++ [cdCommand (surroundings.normalize dir) ++
      Str.join (compileArgs toolkit surroundings.config (surroundings.normalize dir) flags)] <+:
      plan surroundings toolkit options (surroundings.normalize dir) flags := by
    simp [plan]
  refine Action.post_bind (hran.post_runCommand printCommand hcompiler (by decide)) fun output job₃ houtput => ?_
  obtain ⟨hran, site, hexited⟩ := houtput
  refine Action.post_bind (printVerbose_spec hran output) fun _ job₄ hran => ?_
  refine Action.post_bind (hran.post_check _ _ hcompiler (by decide)) fun _ job₅ hspills => ?_
  obtain ⟨hran, hspills⟩ := hspills
  refine Action.post_bind (hran.post_check _ _ hcompiler (by decide)) fun _ job₆ hlocal => ?_
  obtain ⟨hran, hlocal⟩ := hlocal
  have hfront : ∀ front rest : List Bytes, front ++ rest =
      plan surroundings toolkit options (surroundings.normalize dir) flags →
      front <+: plan surroundings toolkit options (surroundings.normalize dir) flags :=
    fun front rest h => ⟨rest, h⟩
  refine Action.post_bind (runPostHook_spec hran printCommand (hfront _ _ (List.append_assoc _ _ _).symm))
    fun _ job₇ hran => ?_
  refine Action.post_bind (dumpPtx_spec hran printCommand _ (hfront _ _ rfl)) fun _ job₈ hran => ?_
  refine Action.post_bind (dumpSass_spec hran printCommand (List.prefix_refl _)) fun sass job₉ hsass => ?_
  obtain ⟨hran, hnone, hsome⟩ := hsass
  change Progress answers job.files (bytes "kernel.cu") source
    (plan surroundings toolkit options (surroundings.normalize dir) flags) job₉ at hran
  refine post_runTask (fun _ files _ hfinish => ?_) fun error => ?_
  · obtain ⟨hcubin, hptx, hsassFile, hmetadata⟩ := finish_ok hfinish
    refine ⟨flags, hflags, hran.commands, hran.exited, ?_, ⟨output, site, hexited, accepts_of_checks hspills hlocal⟩,
      hcubin, hptx, fun hdump => ?_, hmetadata⟩
    · have hfound := hran.source
      have hne : job₉.commands ≠ [] := fun hnil => by
        have hcommands := hran.commands
        simp [hnil, plan] at hcommands
      obtain ⟨first, rest, hcons⟩ := List.exists_cons_of_ne_nil hne
      simpa [hcons] using hfound
    · obtain ⟨hne, site', hexited'⟩ := hsome hdump
      exact ⟨sass, site', hne, hexited', hsassFile hne⟩
  · have hne : plan surroundings toolkit options (surroundings.normalize dir) flags ≠ [] := by simp [plan]
    exact ⟨hran.commands ▸ List.prefix_refl _, fun _ hnil => absurd (hnil hran.commands) hne⟩

theorem plan_eq_of_dumpCommands {flags dumps : List Bytes}
    (h : dumpCommands toolkit options dir (compileArgs toolkit surroundings.config dir flags) = .ok dumps) :
    plan surroundings toolkit options dir flags =
      [cdCommand dir ++ Str.join (compileArgs toolkit surroundings.config dir flags)] ++
        options.postHook.toList.map (hookCommand surroundings.config dir) ++ dumps := by
  unfold dumpCommands at h
  unfold plan ptxCommand
  by_cases hsass : options.dumpSass.getD false = true
  · cases hcuobjdump : toolkit.cuobjdump with
    | none => simp [hsass, hcuobjdump] at h
    | some cuobjdump =>
        simp only [hsass, hcuobjdump, if_true, Except.ok.injEq] at h
        rw [← h, List.append_assoc _ _ (if options.dumpSass.getD false then _ else _), hsass]
        rfl
  · rw [Bool.not_eq_true] at hsass
    simp only [hsass, Bool.false_eq_true, if_false, Except.ok.injEq] at h
    simp only [hsass, Bool.false_eq_true, if_false, List.append_nil, ← h]

end

/-- A build that returns has run its whole plan and left valid outputs, with the metadata of the
command that was run. A build that throws has stopped on the way, and has not written the
metadata unless it came to the end of its plan. -/
theorem nvcc_build_exact (fallbackDisabled : Bool) (answers : Nat → Answer) (surroundings : Surroundings)
    (toolkit : Toolkit) (info : CompilerInfo) (source dir : Bytes) (options : CompilerOptions) (files : Files)
    (stdout : Bytes) :
    Post (fun _ job => ∃ flags, options.getFlags = .ok flags ∧
        Built answers surroundings toolkit info options source (surroundings.normalize dir) flags job)
      (fun _ => Stopped answers files (planned surroundings toolkit options (surroundings.normalize dir)))
      (compile fallbackDisabled answers surroundings toolkit info source dir options
        { files := files, stdout := stdout }) :=
  compile_spec ⟨rfl, rfl⟩

end DeepJit.Cuda
