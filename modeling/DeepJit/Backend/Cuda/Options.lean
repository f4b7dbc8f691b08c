import DeepJit.Runtime.Config
import DeepJit.Utils.Str

/-!
# CUDA compiler options

`cuda::CompilerOptions`, its flags, its part of the cache key, and what `CUDA::compile` does with
it: the NVCC command, the checks of the compiler output, the post hook and the dump commands.
-/

namespace DeepJit.Cuda

structure CompilerOptions where
  optimizeLevel : Option Bytes := none
  fastMath : Option Bool := none
  ptxasVerbose : Option Bool := none
  ptxasRegisterUsageLevel : Option Int := none
  checkNoSpills : Option Bool := none
  checkNoLocalMemory : Option Bool := none
  withLineInfo : Option Bool := none
  dumpPtx : Option Bool := none
  dumpSass : Option Bool := none
  arch : Option Bytes := none
  nvccFlags : Option (List Bytes) := none
  extraNvccFlags : List Bytes := []
  postHook : Option Bytes := none

namespace CompilerOptions

/-- `override_with`: a set field of the overrides wins, extra flags accumulate. -/
def overrideWith (base overrides : CompilerOptions) : CompilerOptions where
  optimizeLevel := overrides.optimizeLevel <|> base.optimizeLevel
  fastMath := overrides.fastMath <|> base.fastMath
  ptxasVerbose := overrides.ptxasVerbose <|> base.ptxasVerbose
  ptxasRegisterUsageLevel := overrides.ptxasRegisterUsageLevel <|> base.ptxasRegisterUsageLevel
  checkNoSpills := overrides.checkNoSpills <|> base.checkNoSpills
  checkNoLocalMemory := overrides.checkNoLocalMemory <|> base.checkNoLocalMemory
  withLineInfo := overrides.withLineInfo <|> base.withLineInfo
  dumpPtx := overrides.dumpPtx <|> base.dumpPtx
  dumpSass := overrides.dumpSass <|> base.dumpSass
  arch := overrides.arch <|> base.arch
  nvccFlags := overrides.nvccFlags <|> base.nvccFlags
  extraNvccFlags := base.extraNvccFlags ++ overrides.extraNvccFlags
  postHook := overrides.postHook <|> base.postHook

/-- A flag that a boolean option adds. -/
private def flagIf (option : Option Bool) (flag : String) : List Bytes :=
  if option.getD false then [bytes flag] else []

/-- `get_flags`. -/
def getFlags (options : CompilerOptions) : Except Bytes (List Bytes) :=
  match options.arch with
  | none | some [] => .error (bytes "CUDA architecture must be specified")
  | some arch =>
      match options.optimizeLevel with
      | none | some [] => .error (bytes "optimization level must be specified")
      | some level =>
          match options.ptxasRegisterUsageLevel with
          | none => .error (bytes "PTXAS register usage level must be specified")
          | some registerUsageLevel =>
              .ok ([bytes "--gpu-architecture=sm_" ++ arch, bytes "-O" ++ level,
                  bytes "--compiler-options=-O" ++ level] ++
                flagIf options.fastMath "--use_fast_math" ++
                flagIf options.ptxasVerbose "--ptxas-options=--verbose" ++
                [bytes "--ptxas-options=--register-usage-level=" ++ decimalInt registerUsageLevel] ++
                flagIf options.checkNoSpills "--ptxas-options=--warn-on-spills" ++
                flagIf options.checkNoLocalMemory "--ptxas-options=--warn-on-local-memory-usage" ++
                flagIf options.withLineInfo "--generate-line-info" ++
                options.nvccFlags.getD [] ++ options.extraNvccFlags)

/-- The components that `update_hash` feeds to the hasher. -/
def updateHash (options : CompilerOptions) : Except Bytes (List Bytes) :=
  match options.getFlags with
  | .error e => .error e
  | .ok flags => .ok [Str.join flags]

/-- What `get_post_hook_hash` hashes when its table has no entry: the hook as written and its
contents, or nothing without a hook. `readFile` is `read`. -/
def postHookComponents (options : CompilerOptions) (config : Config)
    (readFile : Bytes → Except Bytes Bytes) : Except Bytes (List Bytes) :=
  match options.postHook with
  | none => .ok []
  | some hook =>
      match readFile (config.getPythonPath hook) with
      | .error e => .error e
      | .ok content => .ok [hook, content]

/-- `get_post_hook_hash` with the thread-local table of digests, keyed by the resolved path. -/
def getPostHookHash (digest : List Bytes → Bytes) (options : CompilerOptions) (config : Config)
    (readFile : Bytes → Except Bytes Bytes) (hashes : List (Bytes × Bytes)) :
    Except Bytes (Bytes × List (Bytes × Bytes)) :=
  match options.postHook with
  | none => .ok ([], hashes)
  | some hook =>
      match hashes.lookup (config.getPythonPath hook) with
      | some hash => .ok (hash, hashes)
      | none =>
          match options.postHookComponents config readFile with
          | .error e => .error e
          | .ok components => .ok (digest components, (config.getPythonPath hook, digest components) :: hashes)

end CompilerOptions

/-! ### The checks of the compiler output

The two patterns are words separated by `\s+`, matched anywhere and without case. -/

def isRegexSpace (byte : UInt8) : Bool := byte == 32 || (9 ≤ byte && byte ≤ 13)

def toLower (byte : UInt8) : UInt8 := if 65 ≤ byte ∧ byte ≤ 90 then byte + 32 else byte

/-- The pattern at the start of a text. -/
def matchWords : List Bytes → Bytes → Bool
  | [], _ => true
  | [word], text => word.isPrefixOf (text.map toLower)
  | word :: words, text =>
      word.isPrefixOf (text.map toLower) && (text.drop word.length).head?.any isRegexSpace &&
        matchWords words ((text.drop word.length).dropWhile isRegexSpace)

/-- `std::regex_search`. -/
def searchWords (words : List Bytes) : Bytes → Bool
  | [] => matchWords words []
  | byte :: text => matchWords words (byte :: text) || searchWords words text

def reportsSpills : Bytes → Bool :=
  searchWords [bytes "spilled", bytes "to", bytes "local", bytes "memory"]

def reportsLocalMemory : Bytes → Bool := searchWords [bytes "local", bytes "memory", bytes "used"]

/-- The two assertions of `CUDA::compile` on the compiler output. -/
def accepts (options : CompilerOptions) (compilerOutput : Bytes) : Bool :=
  (!options.checkNoSpills.getD false || !reportsSpills compilerOutput) &&
    (!options.checkNoLocalMemory.getD false || !reportsLocalMemory compilerOutput)

/-! ### The commands of `CUDA::compile` -/

structure Toolkit where
  nvcc : Bytes
  cuobjdump : Option Bytes := none

/-- The arguments of the NVCC call in the directory `dir`. -/
def compileArgs (toolkit : Toolkit) (config : Config) (dir : Bytes) (flags : List Bytes) :
    List Bytes :=
  [toolkit.nvcc, appendPath dir (bytes "kernel.cu"), bytes "--cubin", bytes "--output-file",
      appendPath dir (bytes "kernel.cubin")] ++ flags ++
    config.includeDirs.flatMap fun includeDir => [bytes "--include-path", includeDir]

def cdCommand (dir : Bytes) : Bytes := bytes "cd " ++ dir ++ bytes " && "

/-- The shell command of the post hook. -/
def hookCommand (config : Config) (dir hook : Bytes) : Bytes :=
  cdCommand dir ++ bytes "python " ++ config.getPythonPath hook ++ 32 :: appendPath dir (bytes "kernel.cubin")

/-- The shell commands of the PTX and SASS dumps. -/
def dumpCommands (toolkit : Toolkit) (options : CompilerOptions) (dir : Bytes) (args : List Bytes) :
    Except Bytes (List Bytes) :=
  let ptx := if options.dumpPtx.getD false then
      [cdCommand dir ++ Str.join ((args.set 2 (bytes "--ptx")).set 4 (appendPath dir (bytes "kernel.ptx")))]
    else []
  if options.dumpSass.getD false then
    match toolkit.cuobjdump with
    | none => .error (bytes "toolkit.cuobjdump.has_value()")
    | some cuobjdump =>
        .ok (ptx ++ [cdCommand dir ++ cuobjdump ++ bytes " --dump-sass " ++ appendPath dir (bytes "kernel.cubin")])
  else .ok ptx

end DeepJit.Cuda
