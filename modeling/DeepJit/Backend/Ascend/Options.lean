import DeepJit.Runtime.Config
import DeepJit.Utils.Str

/-!
# Ascend compiler options

`ascend::CompilerOptions`, its two flag lists, its part of the cache key, and the Bisheng and linker
calls of `Ascend::compile`. The option `aicpu` selects which of the free-form lists are used.
-/

namespace DeepJit.Ascend

structure CompilerOptions where
  aicpu : Option Bool := none
  optimizeLevel : Option Bytes := none
  arch : Option Int := none
  debugInfo : Option Bool := none
  dumpAsm : Option Bool := none
  bishengFlags : Option (List Bytes) := none
  linkerFlags : Option (List Bytes) := none
  aicpuFlags : Option (List Bytes) := none
  aicpuLinkerFlags : Option (List Bytes) := none
  extraBishengFlags : List Bytes := []
  extraLinkerFlags : List Bytes := []
  extraAicpuFlags : List Bytes := []
  extraAicpuLinkerFlags : List Bytes := []

namespace CompilerOptions

/-- `override_with`: a set field of the overrides wins, extra flags accumulate. -/
def overrideWith (base overrides : CompilerOptions) : CompilerOptions where
  aicpu := overrides.aicpu <|> base.aicpu
  optimizeLevel := overrides.optimizeLevel <|> base.optimizeLevel
  arch := overrides.arch <|> base.arch
  debugInfo := overrides.debugInfo <|> base.debugInfo
  dumpAsm := overrides.dumpAsm <|> base.dumpAsm
  bishengFlags := overrides.bishengFlags <|> base.bishengFlags
  linkerFlags := overrides.linkerFlags <|> base.linkerFlags
  aicpuFlags := overrides.aicpuFlags <|> base.aicpuFlags
  aicpuLinkerFlags := overrides.aicpuLinkerFlags <|> base.aicpuLinkerFlags
  extraBishengFlags := base.extraBishengFlags ++ overrides.extraBishengFlags
  extraLinkerFlags := base.extraLinkerFlags ++ overrides.extraLinkerFlags
  extraAicpuFlags := base.extraAicpuFlags ++ overrides.extraAicpuFlags
  extraAicpuLinkerFlags := base.extraAicpuLinkerFlags ++ overrides.extraAicpuLinkerFlags

/-- `get_bisheng_flags`. -/
def getBishengFlags (options : CompilerOptions) : Except Bytes (List Bytes) :=
  match options.optimizeLevel with
  | none | some [] => .error (bytes "optimization level must be specified")
  | some level =>
      let debug := if options.debugInfo.getD false then
          [bytes "-g", bytes "-gdwarf-5", bytes "-gembed-source", bytes "-gline-tables-only"]
        else []
      if options.aicpu.getD false then
        .ok ([bytes "-O" ++ level] ++ debug ++ options.aicpuFlags.getD [] ++ options.extraAicpuFlags)
      else
        match options.arch with
        | none => .error (bytes "Ascend architecture must be specified")
        | some arch =>
            if arch ≤ 0 then .error (bytes "Ascend architecture must be specified")
            else .ok ([bytes "-O" ++ level, bytes "--npu-arch=dav-" ++ decimalInt arch] ++ debug ++
              options.bishengFlags.getD [] ++ options.extraBishengFlags)

/-- `get_linker_flags`. -/
def getLinkerFlags (options : CompilerOptions) : List Bytes :=
  if options.aicpu.getD false then options.aicpuLinkerFlags.getD [] ++ options.extraAicpuLinkerFlags
  else options.linkerFlags.getD [] ++ options.extraLinkerFlags

/-- The components that `update_hash` feeds to the hasher. -/
def updateHash (options : CompilerOptions) : Except Bytes (List Bytes) :=
  match options.getBishengFlags with
  | .error e => .error e
  | .ok flags =>
      .ok ((if options.aicpu.getD false then [bytes "aicpu"] else []) ++
        [Str.join flags, Str.join options.getLinkerFlags])

end CompilerOptions

/-! ### The commands of `Ascend::compile` -/

structure Toolkit where
  bisheng : Bytes
  ldLld : Bytes
  ascDevkitInclude : Bytes

def includeFlag (includeDir : Bytes) : Bytes := bytes "-I" ++ includeDir

/-- The include flags after the Bisheng flags. The AICPU mode adds the SDK directories around the
devkit's. -/
def includeFlags (toolkit : Toolkit) (config : Config) (aicpu : Bool) : List Bytes :=
  let ascInclude := parentPath toolkit.ascDevkitInclude
  config.includeDirs.map includeFlag ++ [includeFlag toolkit.ascDevkitInclude] ++
    if aicpu then
      [ascInclude, appendPath ascInclude (bytes "basic_api"), parentPath ascInclude,
        appendPath (parentPath (parentPath ascInclude)) (bytes "include")].map includeFlag
    else []

/-- `base_bisheng_args`. -/
def baseBishengArgs (toolkit : Toolkit) (config : Config) (aicpu : Bool) (flags : List Bytes) :
    List Bytes :=
  [toolkit.bisheng] ++ flags ++ includeFlags toolkit config aicpu

def bishengArgs (toolkit : Toolkit) (config : Config) (aicpu : Bool) (dir : Bytes)
    (flags : List Bytes) :
    List Bytes :=
  baseBishengArgs toolkit config aicpu flags ++
    [appendPath dir (bytes "kernel.asc"), bytes "-o", appendPath dir (bytes "kernel.rel.o")]

def linkerArgs (toolkit : Toolkit) (aicpu : Bool) (dir : Bytes) (flags : List Bytes) : List Bytes :=
  [toolkit.ldLld] ++ flags ++
    [appendPath dir (bytes "kernel.rel.o"), bytes "-o",
      appendPath dir (bytes (if aicpu then "kernel.aicpu.so" else "kernel.o"))]

/-- The arguments of the assembly dump in `asm_dir`. -/
def dumpArgs (toolkit : Toolkit) (config : Config) (aicpu : Bool) (dir : Bytes)
    (flags : List Bytes) :
    List Bytes :=
  baseBishengArgs toolkit config aicpu flags ++
    [bytes (if aicpu then "-S" else "-save-temps"), appendPath dir (bytes "kernel.asc"), bytes "-o",
      appendPath (appendPath dir (bytes "asm")) (bytes (if aicpu then "kernel.s" else "kernel.rel.o"))]

end DeepJit.Ascend
