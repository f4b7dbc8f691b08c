import DeepJit.Backend.Builder
import DeepJit.Runtime.Kernels

/-!
# CUDA launches

`Runtime::launch` of the CUDA backend. The options of a launch override the defaults, and what they
leave open is checked before the first call of the driver. The two attributes of a function stay
with it from one launch to the next.
-/

namespace DeepJit.Cuda

structure Dim3 where
  x : BitVec 32
  y : BitVec 32
  z : BitVec 32
deriving DecidableEq

def Dim3.positive (dim : Dim3) : Bool := 0 < dim.x && 0 < dim.y && 0 < dim.z

structure LaunchOptions where
  stream : Option Nat := none
  numSmemBytes : Option Int := none
  gridDim : Option Dim3 := none
  blockDim : Option Dim3 := none
  clusterDim : Option Dim3 := none
  cooperative : Option Bool := none
  enablePdl : Option Bool := none
  nonportableClusterSizeAllowed : Option Bool := none

namespace LaunchOptions

def defaultOptions : LaunchOptions where
  numSmemBytes := some 0
  clusterDim := some ⟨1, 1, 1⟩
  cooperative := some false
  enablePdl := some false
  nonportableClusterSizeAllowed := some false

def overrideWith (options overrides : LaunchOptions) : LaunchOptions where
  stream := overrides.stream.or options.stream
  numSmemBytes := overrides.numSmemBytes.or options.numSmemBytes
  gridDim := overrides.gridDim.or options.gridDim
  blockDim := overrides.blockDim.or options.blockDim
  clusterDim := overrides.clusterDim.or options.clusterDim
  cooperative := overrides.cooperative.or options.cooperative
  enablePdl := overrides.enablePdl.or options.enablePdl
  nonportableClusterSizeAllowed := overrides.nonportableClusterSizeAllowed.or options.nonportableClusterSizeAllowed

end LaunchOptions

/-! ### The driver -/

inductive LaunchAttribute where
  | cooperative
  | clusterDimension (x : BitVec 32)
  | programmaticStreamSerialization
deriving DecidableEq

/-- An argument, at its address or behind a `NoRefPtr`. -/
inductive KernelArg where
  | value (address : Nat)
  | noRef (ptr : Nat)

/-- `kernel_arg_pointer`. -/
def KernelArg.pointer : KernelArg → Nat
  | .value address => address
  | .noRef ptr => ptr

/-- `CUlaunchConfig`, with the pointers of the arguments. -/
structure LaunchConfig where
  gridDim : Dim3
  blockDim : Dim3
  sharedMemBytes : BitVec 32
  stream : Nat
  attrs : List LaunchAttribute
  kernelArgPtrs : Option (List Nat)
deriving DecidableEq

inductive DriverCall where
  | setMaxDynamicSharedSizeBytes (value : Int)
  | allowNonPortableClusterSize
  | launchKernelEx (config : LaunchConfig)
deriving DecidableEq

structure DriverError where
  code : Int
  name : Bytes
  description : Bytes

/-- What `check_cuda_driver` panics with. -/
def DriverError.what (error : DriverError) (expression : String) : Bytes :=
  bytes expression ++ bytes " failed with CUDA error " ++ decimalInt error.code ++ bytes " (" ++ error.name ++
    bytes "): " ++ error.description

/-- The text of the call in `DJ_CUDA_DRIVER_CHECK`. -/
def DriverCall.expression : DriverCall → String
  | .setMaxDynamicSharedSizeBytes _ => "driver::lazy_cuFuncSetAttribute( kernel_handle, " ++
      "CU_FUNC_ATTRIBUTE_MAX_DYNAMIC_SHARED_SIZE_BYTES, *launch_options.num_smem_bytes)"
  | .allowNonPortableClusterSize => "driver::lazy_cuFuncSetAttribute( kernel_handle, " ++
      "CU_FUNC_ATTRIBUTE_NON_PORTABLE_CLUSTER_SIZE_ALLOWED, 1)"
  | .launchKernelEx _ => "driver::lazy_cuLaunchKernelEx( &config, kernel_handle, " ++
      "sizeof...(Args) == 0 ? nullptr : kernel_arg_ptrs, nullptr)"

/-- The calls on one kernel so far, each with whether it succeeded. -/
abbrev Calls := List (DriverCall × Bool)

section

variable (answers : Nat → Option DriverError)

/-- `DJ_CUDA_DRIVER_CHECK`, with the answers of the driver in order. -/
def driverCheck (call : DriverCall) : Action Bytes Calls Unit := fun calls =>
  match answers calls.length with
  | none => (.ok (), calls ++ [(call, true)])
  | some error => (.error (error.what call.expression), calls ++ [(call, false)])

/-- The checks of `launch`, in order. -/
def checkLaunch (kernelHandle : Option Nat) (options : LaunchOptions) : Except Bytes Unit := do
  hostAssert kernelHandle.isSome "kernel_handle != nullptr" (bytes "kernel must be loaded before launch")
  hostAssert options.numSmemBytes.isSome "launch_options.num_smem_bytes.has_value()"
    (bytes "CUDA dynamic shared-memory size must be specified")
  hostAssert options.gridDim.isSome "launch_options.grid_dim.has_value()"
    (bytes "CUDA grid dimension must be specified")
  hostAssert options.blockDim.isSome "launch_options.block_dim.has_value()"
    (bytes "CUDA block dimension must be specified")
  hostAssert options.clusterDim.isSome "launch_options.cluster_dim.has_value()"
    (bytes "CUDA cluster dimension must be specified")
  hostAssert options.cooperative.isSome "launch_options.cooperative.has_value()"
    (bytes "CUDA cooperative option must be specified")
  hostAssert options.enablePdl.isSome "launch_options.enable_pdl.has_value()"
    (bytes "CUDA PDL option must be specified")
  hostAssert options.nonportableClusterSizeAllowed.isSome
    "launch_options.nonportable_cluster_size_allowed.has_value()"
    (bytes "CUDA non-portable cluster option must be specified")
  hostAssert (options.numSmemBytes.all (0 ≤ ·)) "*launch_options.num_smem_bytes >= 0"
    (bytes "CUDA dynamic shared-memory size must not be negative")
  hostAssert (options.gridDim.all Dim3.positive)
    "launch_options.grid_dim->x > 0 and launch_options.grid_dim->y > 0 and launch_options.grid_dim->z > 0"
    (bytes "CUDA grid dimensions must be positive")
  hostAssert (options.blockDim.all Dim3.positive)
    "launch_options.block_dim->x > 0 and launch_options.block_dim->y > 0 and launch_options.block_dim->z > 0"
    (bytes "CUDA block dimensions must be positive")
  hostAssert (options.clusterDim.all (0 < ·.x)) "launch_options.cluster_dim->x > 0"
    (bytes "CUDA cluster dimension must be positive")
  hostAssert (options.clusterDim.all fun dim => dim.y == 1 && dim.z == 1)
    "launch_options.cluster_dim->y == 1 and launch_options.cluster_dim->z == 1"
    (bytes "only one-dimensional CUDA clusters are supported")

/-- The attributes that `launch` writes to its array of three. -/
def launchAttributes (options : LaunchOptions) : List LaunchAttribute :=
  (if options.cooperative.getD false then [.cooperative] else []) ++
    (options.clusterDim.toList.filter (1 < ·.x)).map (fun dim => .clusterDimension dim.x) ++
    if options.enablePdl.getD false then [.programmaticStreamSerialization] else []

/-- The calls of `launch` that come before the last one. -/
def functionAttributes (options : LaunchOptions) : List DriverCall :=
  (options.numSmemBytes.toList.filter (0 < ·)).map .setMaxDynamicSharedSizeBytes ++
    if options.nonportableClusterSizeAllowed.getD false then [.allowNonPortableClusterSize] else []

def launchConfig (currentStream : Nat) (options : LaunchOptions) (args : List KernelArg) : LaunchConfig where
  gridDim := options.gridDim.getD ⟨0, 0, 0⟩
  blockDim := options.blockDim.getD ⟨0, 0, 0⟩
  sharedMemBytes := BitVec.ofInt 32 (options.numSmemBytes.getD 0)
  stream := options.stream.getD currentStream
  attrs := launchAttributes options
  kernelArgPtrs := if args = [] then none else some (args.map KernelArg.pointer)

/-- Calls in a row. -/
def driverChecks : List DriverCall → Action Bytes Calls Unit
  | [] => pure ()
  | call :: rest => do
      driverCheck answers call
      driverChecks rest

/-- The calls of `launch` behind its checks. -/
def launchCalls (currentStream : Nat) (options : LaunchOptions) (args : List KernelArg) : List DriverCall :=
  functionAttributes options ++ [.launchKernelEx (launchConfig currentStream options args)]

def launch (kernelHandle : Option Nat) (currentStream : Nat) (options : LaunchOptions) (args : List KernelArg) :
    Action Bytes Calls Unit := do
  Action.lift (checkLaunch kernelHandle options)
  driverChecks answers (launchCalls currentStream options args)

end

/-! ### One launch -/

/-- The calls up to the first that fails. -/
def attempt (answers : Nat → Option DriverError) : Nat → List DriverCall → Calls
  | _, [] => []
  | n, call :: rest =>
      if (answers n).isNone then (call, true) :: attempt answers (n + 1) rest else [(call, false)]

/-- The overrides that the defaults complete to a launch. -/
structure Launchable (overrides : LaunchOptions) : Prop where
  grid : ∃ dim, overrides.gridDim = some dim ∧ dim.positive = true
  block : ∃ dim, overrides.blockDim = some dim ∧ dim.positive = true
  cluster : ∀ dim, overrides.clusterDim = some dim → 0 < dim.x ∧ dim.y = 1 ∧ dim.z = 1
  smem : ∀ n, overrides.numSmemBytes = some n → 0 ≤ n

section

variable {answers : Nat → Option DriverError} {calls : Calls} {kernelHandle : Option Nat} {currentStream : Nat}
  {options overrides : LaunchOptions} {args : List KernelArg}

theorem driverChecks_spec (planned : List DriverCall) (calls : Calls) : ∃ result,
    driverChecks answers planned calls = (result, calls ++ attempt answers calls.length planned) ∧
      (result = .ok () ↔ ∀ c ∈ attempt answers calls.length planned, c.2 = true) := by
  induction planned generalizing calls with
  | nil => exact ⟨.ok (), by simp [driverChecks, attempt]; rfl, by simp [attempt]⟩
  | cons call rest ih =>
      obtain ⟨result, hresult, hok⟩ := ih (calls ++ [(call, true)])
      rw [List.length_append, List.length_singleton] at hresult hok
      unfold attempt
      show ∃ result, Action.andThen (driverCheck answers call) _ calls = _ ∧ _
      unfold Action.andThen driverCheck
      cases hanswer : answers calls.length with
      | none =>
          refine ⟨result, ?_, ?_⟩
          · simp only [Option.isNone_none, if_true]
            rw [hresult, List.append_assoc, List.singleton_append]
          · simpa using hok
      | some error => exact ⟨.error _, rfl, by simp⟩

theorem all_or {α : Type} {option : Option α} {default : α} {p : α → Bool} (hdefault : p default = true) :
    (option.or (some default)).all p = true ↔ ∀ value, option = some value → p value = true := by
  cases option with
  | none => simpa using hdefault
  | some value => simp

theorem isSome_all {α : Type} {option : Option α} {p : α → Bool} :
    option.isSome = true ∧ option.all p = true ↔ ∃ value, option = some value ∧ p value = true := by
  cases option with
  | none => simp
  | some value => simp

theorem checkLaunch_iff (handle : Nat) :
    checkLaunch (some handle) (LaunchOptions.defaultOptions.overrideWith overrides) = .ok () ↔ Launchable overrides := by
  unfold checkLaunch
  simp only [hostAssert_bind, hostAssert_eq_ok, LaunchOptions.overrideWith, LaunchOptions.defaultOptions,
    Option.isSome_some, Option.or_none, Option.isSome_or, Bool.or_true, true_and]
  rw [all_or (by decide), all_or (by decide), all_or (by decide)]
  constructor
  · rintro ⟨hgrid, hblock, hsmem, hgridPositive, hblockPositive, hx, hyz⟩
    refine ⟨isSome_all.mp ⟨hgrid, hgridPositive⟩, isSome_all.mp ⟨hblock, hblockPositive⟩, fun dim hdim => ?_,
      fun n hn => by simpa using hsmem n hn⟩
    exact ⟨by simpa using hx dim hdim, by simpa using hyz dim hdim⟩
  · intro h
    obtain ⟨hgrid, hgridPositive⟩ := isSome_all.mpr h.grid
    obtain ⟨hblock, hblockPositive⟩ := isSome_all.mpr h.block
    refine ⟨hgrid, hblock, fun n hn => by simpa using h.smem n hn, hgridPositive, hblockPositive, ?_, ?_⟩
    · exact fun dim hdim => by simpa using (h.cluster dim hdim).1
    · exact fun dim hdim => by simpa using (h.cluster dim hdim).2

/-- A launch with the defaults throws before the first call of the driver unless its overrides
complete them. Otherwise it makes its calls in order up to the first that fails, and throws then. -/
theorem launch_exact (answers : Nat → Option DriverError) (handle currentStream : Nat) (overrides : LaunchOptions)
    (args : List KernelArg) (calls : Calls) : ∃ result made,
    launch answers (some handle) currentStream (LaunchOptions.defaultOptions.overrideWith overrides) args calls =
      (result, calls ++ made) ∧
    (¬Launchable overrides → result ≠ .ok () ∧ made = []) ∧
    (Launchable overrides → made = attempt answers calls.length
      (launchCalls currentStream (LaunchOptions.defaultOptions.overrideWith overrides) args) ∧
      (result = .ok () ↔ ∀ c ∈ made, c.2 = true)) := by
  obtain ⟨result, hresult, hok⟩ := @driverChecks_spec answers
    (launchCalls currentStream (LaunchOptions.defaultOptions.overrideWith overrides) args) calls
  unfold launch
  show ∃ _ _, Action.andThen (Action.lift _) _ calls = _ ∧ _
  unfold Action.andThen Action.lift
  cases hcheck : checkLaunch (some handle) (LaunchOptions.defaultOptions.overrideWith overrides) with
  | ok _ =>
      have hlaunchable : Launchable overrides := (checkLaunch_iff handle).mp hcheck
      exact ⟨result, _, hresult, fun h => absurd hlaunchable h, fun _ => ⟨rfl, hok⟩⟩
  | error what =>
      have hnot : ¬Launchable overrides := by
        rw [← checkLaunch_iff handle, hcheck]
        simp
      exact ⟨.error what, [], by simp, fun _ => ⟨by simp, rfl⟩, fun h => absurd h hnot⟩

end

/-! ### One launch after the other -/

structure Launch where
  currentStream : Nat
  overrides : LaunchOptions
  args : List KernelArg

namespace Launch

def options (launch : Launch) : LaunchOptions := LaunchOptions.defaultOptions.overrideWith launch.overrides

def config (launch : Launch) : LaunchConfig := launchConfig launch.currentStream launch.options launch.args

end Launch

/-- The launches of one kernel. A launch that throws does not end the series. -/
def launches (answers : Nat → Option DriverError) (handle : Nat) : List Launch → Calls → Calls
  | [], calls => calls
  | l :: rest, calls =>
      launches answers handle rest (launch answers (some handle) l.currentStream l.options l.args calls).2

/-- The size that the function allows after some calls. -/
def maxDynamicSharedSize (calls : Calls) : Int :=
  calls.foldl (fun size call =>
    match call with
    | (.setMaxDynamicSharedSizeBytes n, true) => n
    | _ => size) 0

/-- What a launch of the driver finds: the configuration of one of the launches, and the attributes
that this launch needs. -/
structure InForce (ls : List Launch) (before : Calls) (config : LaunchConfig) (l : Launch) : Prop where
  mem : l ∈ ls
  launchable : Launchable l.overrides
  attributes : config.attrs.length ≤ 3
  asked : config = l.config
  smem : ∀ n, l.overrides.numSmemBytes = some n → 0 < n → maxDynamicSharedSize before = n
  cluster : l.overrides.nonportableClusterSizeAllowed = some true → (.allowNonPortableClusterSize, true) ∈ before

section

variable {answers : Nat → Option DriverError} {ls : List Launch} {l : Launch} {calls before after : Calls}
  {call : DriverCall} {config : LaunchConfig} {done : Bool}

/-- Before any call of an attempt come the planned calls before it, and they succeeded. -/
theorem attempt_split {n : Nat} {plan : List DriverCall} (h : attempt answers n plan = before ++ (call, done) :: after) :
    ∃ front back, plan = front ++ call :: back ∧ before = front.map fun c => (c, true) := by
  induction plan generalizing n before with
  | nil => simp [attempt] at h
  | cons first rest ih =>
      unfold attempt at h
      cases before with
      | nil =>
          refine ⟨[], rest, ?_, rfl⟩
          split at h
          · simp_all
          · simp_all
      | cons head before =>
          split at h
          · simp only [List.cons_append, List.cons.injEq] at h
            obtain ⟨front, back, hrest, hbefore⟩ := ih h.2
            exact ⟨first :: front, back, by rw [hrest, List.cons_append], by rw [hbefore, ← h.1, List.map_cons]⟩
          · simp at h

theorem launchCalls_split {currentStream : Nat} {options : LaunchOptions} {args : List KernelArg}
    {front back : List DriverCall} (h : launchCalls currentStream options args = front ++ .launchKernelEx config :: back) :
    front = functionAttributes options ∧ config = launchConfig currentStream options args := by
  have hnot : ∀ c, DriverCall.launchKernelEx c ∉ functionAttributes options := by
    intro c hmem
    unfold functionAttributes at hmem
    rcases List.mem_append.mp hmem with hset | hallow
    · simp at hset
    · split at hallow <;> simp at hallow
  unfold launchCalls at h
  rcases List.append_eq_append_iff.mp h with ⟨mid, hfront, hmid⟩ | ⟨mid, hattributes, hmid⟩
  · cases mid with
    | nil =>
        simp only [List.nil_append, List.cons.injEq, DriverCall.launchKernelEx.injEq] at hmid
        exact ⟨by simpa using hfront, hmid.1.symm⟩
    | cons head rest => simp at hmid
  · cases mid with
    | nil =>
        simp only [List.nil_append, List.cons.injEq, DriverCall.launchKernelEx.injEq] at hmid
        exact ⟨by simpa using hattributes.symm, hmid.1⟩
    | cons head rest =>
        simp only [List.cons_append, List.cons.injEq] at hmid
        exact absurd (hattributes ▸ List.mem_append_right _ (hmid.1 ▸ List.mem_cons_self)) (hnot config)

theorem length_launchAttributes (options : LaunchOptions) : (launchAttributes options).length ≤ 3 := by
  have hcluster : ((options.clusterDim.toList.filter (1 < ·.x)).map
      fun dim => LaunchAttribute.clusterDimension dim.x).length ≤ 1 := by
    rw [List.length_map]
    apply Nat.le_trans (List.length_filter_le _ _)
    cases options.clusterDim <;> simp
  unfold launchAttributes
  simp only [List.length_append]
  split <;> split <;> simp only [List.length_cons, List.length_nil] <;> omega

theorem maxDynamicSharedSize_functionAttributes {options : LaunchOptions} {n : Int}
    (hsmem : options.numSmemBytes = some n) (hn : 0 < n) :
    maxDynamicSharedSize (calls ++ (functionAttributes options).map fun c => (c, true)) = n := by
  unfold maxDynamicSharedSize functionAttributes
  simp only [hsmem, Option.toList_some, List.filter_cons, hn, decide_true, if_true, List.filter_nil, List.map_cons,
    List.map_nil, List.map_append, List.foldl_append, List.foldl_cons, List.foldl_nil]
  split <;> rfl

theorem inForce_launch (hl : l ∈ ls)
    (h : ∀ before config done after, calls = before ++ (.launchKernelEx config, done) :: after →
      ∃ l, InForce ls before config l) {handle : Nat}
    (hcalls : (launch answers (some handle) l.currentStream l.options l.args calls).2 =
      before ++ (.launchKernelEx config, done) :: after) : ∃ l, InForce ls before config l := by
  obtain ⟨result, made, hmade, hrejected, haccepted⟩ :=
    launch_exact answers handle l.currentStream l.overrides l.args calls
  have hsecond : calls ++ made = before ++ (.launchKernelEx config, done) :: after := by
    rw [← hcalls, Launch.options, hmade]
  have hnew : ∀ mid, before = calls ++ mid → made = mid ++ (.launchKernelEx config, done) :: after →
      ∃ l, InForce ls before config l := by
    rintro mid rfl hmid
    by_cases hlaunchable : Launchable l.overrides
    · rw [(haccepted hlaunchable).1] at hmid
      obtain ⟨front, back, hplan, rfl⟩ := attempt_split hmid
      obtain ⟨rfl, rfl⟩ := launchCalls_split hplan
      refine ⟨l, hl, hlaunchable, length_launchAttributes _, rfl, fun n hn hpos => ?_, fun hallowed => ?_⟩
      · exact maxDynamicSharedSize_functionAttributes (by simp [LaunchOptions.overrideWith, hn]) hpos
      · apply List.mem_append_right
        simp [functionAttributes, LaunchOptions.overrideWith, hallowed]
    · rw [(hrejected hlaunchable).2] at hmid
      simp at hmid
  rcases List.append_eq_append_iff.mp hsecond with ⟨mid, hbefore, hmid⟩ | ⟨mid, hold, hmid⟩
  · exact hnew mid hbefore hmid
  · cases mid with
    | nil => exact hnew [] (by simpa using hold.symm) hmid.symm
    | cons head rest =>
        simp only [List.cons_append, List.cons.injEq] at hmid
        exact h before config done rest (by rw [hold, ← hmid.1])

theorem inForce_launches {handle : Nat} (rest : List Launch) (hrest : ∀ l ∈ rest, l ∈ ls)
    (h : ∀ before config done after, calls = before ++ (.launchKernelEx config, done) :: after →
      ∃ l, InForce ls before config l)
    (hcalls : launches answers handle rest calls = before ++ (.launchKernelEx config, done) :: after) :
    ∃ l, InForce ls before config l := by
  induction rest generalizing calls with
  | nil => exact h before config done after hcalls
  | cons l rest ih =>
      refine ih (fun l hl => hrest l (List.mem_cons_of_mem _ hl)) (fun _ _ _ _ hcalls => ?_) hcalls
      exact inForce_launch (hrest l List.mem_cons_self) h hcalls

end

/-- Whatever a series of launches with any overrides does, and whichever driver calls fail in it, the
driver launches a kernel only with the configuration of one of them whose options are complete, and
with the function attributes that it needs in force. -/
theorem launches_in_force (answers : Nat → Option DriverError) (handle : Nat) (ls : List Launch)
    (before after : Calls) (config : LaunchConfig) (done : Bool)
    (h : launches answers handle ls [] = before ++ (.launchKernelEx config, done) :: after) :
    ∃ l, InForce ls before config l :=
  inForce_launches ls (fun _ => id) (by simp) h

/-- A launch with shared memory, and one with a large cluster. -/
def sharedThenCluster : List Launch :=
  [⟨7, { gridDim := some ⟨1, 1, 1⟩, blockDim := some ⟨32, 1, 1⟩, numSmemBytes := some 64 }, [.value 16]⟩,
    ⟨7, { gridDim := some ⟨16, 1, 1⟩, blockDim := some ⟨32, 1, 1⟩, clusterDim := some ⟨16, 1, 1⟩,
          nonportableClusterSizeAllowed := some true }, []⟩]

theorem launches_in_force_sharedThenCluster :
    ∃ l, InForce sharedThenCluster [(.setMaxDynamicSharedSizeBytes 64, true)]
      ⟨⟨1, 1, 1⟩, ⟨32, 1, 1⟩, 64, 7, [], some [16]⟩ l :=
  launches_in_force (fun _ => none) 0 sharedThenCluster [(.setMaxDynamicSharedSizeBytes 64, true)]
    [(.allowNonPortableClusterSize, true),
      (.launchKernelEx ⟨⟨16, 1, 1⟩, ⟨32, 1, 1⟩, 0, 7, [.clusterDimension 16], none⟩, true)]
    ⟨⟨1, 1, 1⟩, ⟨32, 1, 1⟩, 64, 7, [], some [16]⟩ true (by decide)

/-! ### Kernels -/

def DriverCall.kind : DriverCall → Kernels.Call
  | .launchKernelEx _ => .launchKernel
  | .setMaxDynamicSharedSizeBytes _ | .allowNonPortableClusterSize => .setAttribute

/-- The driver calls of a CUDA `Kernel`. -/
def kernels : Kernels.Backend where
  loadCalls := [.getKernelCount, .enumerateKernels, .getFunction]
  LaunchOptions := Launch
  launchCalls l := (launchCalls l.currentStream l.options l.args).map DriverCall.kind
  unloadReleasesGil := false

end DeepJit.Cuda
