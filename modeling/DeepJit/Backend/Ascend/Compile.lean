import DeepJit.Backend.Cuda.Compile

/-!
# Compiling for Ascend

`Ascend::compile`: the source, the Bisheng and the linker call, the assembly dump, and the check of
the binary. The relocatable object goes and the metadata comes when the binary is there.
-/

namespace DeepJit.Ascend

def bishengCommand (surroundings : Surroundings) (toolkit : Toolkit) (options : CompilerOptions) (dir : Bytes)
    (flags : List Bytes) : Bytes :=
  Str.join (bishengArgs toolkit surroundings.config (options.aicpu.getD false) dir flags)

def linkerCommand (toolkit : Toolkit) (options : CompilerOptions) (dir : Bytes) : Bytes :=
  Str.join (linkerArgs toolkit (options.aicpu.getD false) dir options.getLinkerFlags)

def dumpCommand (surroundings : Surroundings) (toolkit : Toolkit) (options : CompilerOptions) (dir : Bytes)
    (flags : List Bytes) : Bytes :=
  Cuda.cdCommand (appendPath dir (bytes "asm")) ++
    Str.join (dumpArgs toolkit surroundings.config (options.aicpu.getD false) dir flags)

def binaryName (options : CompilerOptions) : Bytes :=
  bytes (if options.aicpu.getD false then "kernel.aicpu.so" else "kernel.o")

section

variable (fallbackDisabled : Bool) (answers : Nat → Answer) (surroundings : Surroundings) (toolkit : Toolkit)
  (info : CompilerInfo)

def dumpAsm (options : CompilerOptions) (printCommand : Bool) (dir : Bytes) (flags : List Bytes) : Builder Unit :=
  if options.dumpAsm.getD false then do
    let _ ← runCommand answers printCommand (dumpCommand surroundings toolkit options dir flags)
    pure ()
  else pure ()

/-- The last I/O task: validate the binary and finish the writes. -/
def finish (options : CompilerOptions) (dir metadata : Bytes) (answer : Answer) (files : Files) :
    Except Bytes (Unit × Files) :=
  if (files (binaryName options)).getD [] = [] then .error (assertText answer.site
    (bytes "std::filesystem::is_regular_file(binary_path) and std::filesystem::file_size(binary_path) != 0: Bisheng did not produce a valid Ascend binary: " ++
      appendPath dir (binaryName options)))
  else
    let files := if answer.removeFails then files else Function.update files (bytes "kernel.rel.o") none
    .ok ((), Function.update files (bytes "meta.json") (some metadata))

/-- `Ascend::compile`. The directory of the assembly dump is not among the files. -/
def compile (source dir : Bytes) (options : CompilerOptions) : Builder Unit := do
  let debug ← check answers panicText (surroundings.env.get surroundings.getenv (bytes "JIT_DEBUG") false)
  let printCommand ← check answers panicText
    (surroundings.env.orGet surroundings.getenv debug (bytes "JIT_PRINT_COMPILER_COMMAND"))
  let dir ← runTask fallbackDisabled answers fun _ files =>
    .ok (surroundings.normalize dir, Function.update files (bytes "kernel.asc") (some source))
  let flags ← check answers assertText options.getBishengFlags
  let _ ← runCommand answers printCommand
    (Cuda.cdCommand dir ++ bishengCommand surroundings toolkit options dir flags)
  let _ ← runCommand answers printCommand (Cuda.cdCommand dir ++ linkerCommand toolkit options dir)
  dumpAsm answers surroundings toolkit options printCommand dir flags
  runTask fallbackDisabled answers (finish options dir (metadata
    (bishengCommand surroundings toolkit options dir flags ++ bytes " && " ++ linkerCommand toolkit options dir)
    surroundings.config info options).dump)

/-! ### What a build does -/

/-- The commands of a build in the directory `dir`, in their order. -/
def plan (options : CompilerOptions) (dir : Bytes) (flags : List Bytes) : List Bytes :=
  [Cuda.cdCommand dir ++ bishengCommand surroundings toolkit options dir flags,
      Cuda.cdCommand dir ++ linkerCommand toolkit options dir] ++
    if options.dumpAsm.getD false then [dumpCommand surroundings toolkit options dir flags] else []

/-- What is there when a build returns. -/
structure Built (options : CompilerOptions) (source dir : Bytes) (flags : List Bytes) (job : Job) : Prop where
  /-- Every command was run, in order, and exited with 0, the compiler on the source. -/
  commands : job.commands.map Prod.fst = plan surroundings toolkit options dir flags
  exited : ∀ i < (plan surroundings toolkit options dir flags).length,
    ∃ output site, (answers (i + 1)).command = .exited 0 output site
  source : ∀ files ∈ (job.commands.map Prod.snd).head?, files (bytes "kernel.asc") = some source
  binary : ∃ binary ≠ [], job.files (binaryName options) = some binary
  relocatable : (answers (job.answered - 1)).removeFails = false → job.files (bytes "kernel.rel.o") = none
  metadata : job.files (bytes "meta.json") = some (metadata
    (bishengCommand surroundings toolkit options dir flags ++ bytes " && " ++ linkerCommand toolkit options dir)
    surroundings.config info options).dump

/-- The commands that a build can come to. -/
def planned (options : CompilerOptions) (dir : Bytes) : List Bytes :=
  match options.getBishengFlags with
  | .error _ => []
  | .ok flags => plan surroundings toolkit options dir flags

end

section

variable {fallbackDisabled : Bool} {answers : Nat → Answer} {surroundings : Surroundings} {toolkit : Toolkit}
  {info : CompilerInfo} {initial : Files} {source dir : Bytes} {options : CompilerOptions}
  {ran commands : List Bytes} {job : Job}

theorem dumpAsm_spec (h : Progress answers initial (bytes "kernel.asc") source ran job) (printCommand : Bool)
    (flags : List Bytes)
    (hplan : ran ++ (if options.dumpAsm.getD false then [dumpCommand surroundings toolkit options dir flags] else []) <+:
      commands) :
    Post (fun _ => Progress answers initial (bytes "kernel.asc") source
        (ran ++ if options.dumpAsm.getD false then [dumpCommand surroundings toolkit options dir flags] else []))
      (fun _ => Stopped answers initial commands)
      (dumpAsm answers surroundings toolkit options printCommand dir flags job) := by
  unfold dumpAsm
  by_cases hdump : options.dumpAsm.getD false = true
  · rw [if_pos hdump] at hplan
    simp only [hdump, if_true]
    exact Action.post_bind (h.post_runCommand printCommand hplan (by decide)) fun _ _ hran => hran.1
  · rw [Bool.not_eq_true] at hdump
    simp only [hdump, Bool.false_eq_true, if_false, List.append_nil]
    exact h

theorem binaryName_ne (options : CompilerOptions) :
    binaryName options ≠ bytes "meta.json" ∧ binaryName options ≠ bytes "kernel.rel.o" := by
  unfold binaryName
  split
  · exact ⟨by decide, by decide⟩
  · exact ⟨by decide, by decide⟩

theorem finish_ok {metadata : Bytes} {answer : Answer} {files files' : Files} {u : Unit}
    (h : finish options dir metadata answer files = .ok (u, files')) :
    (∃ binary ≠ [], files' (binaryName options) = some binary) ∧
      (answer.removeFails = false → files' (bytes "kernel.rel.o") = none) ∧
      files' (bytes "meta.json") = some metadata := by
  unfold finish at h
  by_cases hbinary : (files (binaryName options)).getD [] = []
  · simp [hbinary] at h
  · simp only [hbinary, if_false, Except.ok.injEq, Prod.mk.injEq, true_and] at h
    obtain ⟨hmeta, hrelocatable⟩ := binaryName_ne options
    refine ⟨?_, fun hremoves => ?_, by rw [← h, Function.update_self]⟩
    · cases hcontent : files (binaryName options) with
      | none => simp [hcontent] at hbinary
      | some content =>
          rw [hcontent] at hbinary
          refine ⟨content, hbinary, ?_⟩
          rw [← h, Function.update_of_ne hmeta]
          by_cases hfails : answer.removeFails = true
          · rw [if_pos hfails, hcontent]
          · rw [if_neg hfails, Function.update_of_ne hrelocatable, hcontent]
    · have hne : bytes "kernel.rel.o" ≠ bytes "meta.json" := by decide
      rw [← h, Function.update_of_ne hne, if_neg (by simp [hremoves]), Function.update_self]

theorem compile_spec (hnew : job.commands = [] ∧ job.answered = 0) :
    Post (fun _ job' => ∃ flags, options.getBishengFlags = .ok flags ∧
        Built answers surroundings toolkit info options source (surroundings.normalize dir) flags job')
      (fun _ => Stopped answers job.files (planned surroundings toolkit options (surroundings.normalize dir)))
      (compile fallbackDisabled answers surroundings toolkit info source dir options job) := by
  have hstart : Stopped answers job.files
      (planned surroundings toolkit options (surroundings.normalize dir)) job :=
    ⟨by simp [hnew.1], fun _ _ => rfl⟩
  unfold compile
  refine Action.post_bind (Q := fun _ job' => job = job') (post_check (fun _ _ => rfl) fun _ => hstart)
    fun debug t ht => ?_
  subst ht
  refine Action.post_bind (Q := fun _ job' => job = job') (post_check (fun _ _ => rfl) fun _ => hstart)
    fun printCommand t' ht => ?_
  subst ht
  refine Action.post_bind (post_writeSource hnew fun _ _ => rfl) fun dir' job₁ hsource => ?_
  obtain ⟨hsource, rfl⟩ := hsource
  refine Action.post_bind (hsource.post_check _ _ List.nil_prefix (by decide)) fun flags job₂ hflags => ?_
  obtain ⟨hran, hflags⟩ := hflags
  have hplanned : planned surroundings toolkit options (surroundings.normalize dir) =
      plan surroundings toolkit options (surroundings.normalize dir) flags := by rw [planned, hflags]
  rw [hplanned]
  have hfront : ∀ front rest : List Bytes, front ++ rest =
      plan surroundings toolkit options (surroundings.normalize dir) flags →
      front <+: plan surroundings toolkit options (surroundings.normalize dir) flags :=
    fun front rest h => ⟨rest, h⟩
  refine Action.post_bind (hran.post_runCommand printCommand (hfront _ _ rfl) (by decide)) fun _ job₃ houtput => ?_
  obtain ⟨hran, -⟩ := houtput
  refine Action.post_bind (hran.post_runCommand printCommand (hfront _ _ rfl) (by decide)) fun _ job₄ houtput => ?_
  obtain ⟨hran, -⟩ := houtput
  refine Action.post_bind (dumpAsm_spec hran printCommand flags (List.prefix_refl _)) fun _ job₅ hran => ?_
  change Progress answers job.files (bytes "kernel.asc") source
    (plan surroundings toolkit options (surroundings.normalize dir) flags) job₅ at hran
  have hne : plan surroundings toolkit options (surroundings.normalize dir) flags ≠ [] := by simp [plan]
  refine post_runTask (fun _ files _ hfinish => ?_) fun error => ?_
  · obtain ⟨hbinary, hrelocatable, hmetadata⟩ := finish_ok hfinish
    refine ⟨flags, hflags, hran.commands, hran.exited, ?_, hbinary, hrelocatable, hmetadata⟩
    have hfound := hran.source
    have hcommands : job₅.commands ≠ [] := fun hnil => by
      have hran' := hran.commands
      rw [hnil] at hran'
      exact hne hran'.symm
    obtain ⟨first, rest, hcons⟩ := List.exists_cons_of_ne_nil hcommands
    simpa [hcons] using hfound
  · exact ⟨hran.commands ▸ List.prefix_refl _, fun _ hnil => absurd (hnil hran.commands) hne⟩

end

/-- A build that returns has run its whole plan and left a valid binary, with the metadata of the
commands that were run. A build that throws has stopped on the way, and has not written the
metadata unless it came to the end of its plan. -/
theorem bisheng_build_exact (fallbackDisabled : Bool) (answers : Nat → Answer) (surroundings : Surroundings)
    (toolkit : Toolkit) (info : CompilerInfo) (source dir : Bytes) (options : CompilerOptions) (files : Files)
    (stdout : Bytes) :
    Post (fun _ job => ∃ flags, options.getBishengFlags = .ok flags ∧
        Built answers surroundings toolkit info options source (surroundings.normalize dir) flags job)
      (fun _ => Stopped answers files (planned surroundings toolkit options (surroundings.normalize dir)))
      (compile fallbackDisabled answers surroundings toolkit info source dir options
        { files := files, stdout := stdout }) :=
  compile_spec ⟨rfl, rfl⟩

end DeepJit.Ascend
