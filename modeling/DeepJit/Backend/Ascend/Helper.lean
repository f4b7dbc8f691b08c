import DeepJit.Basic
import DeepJit.Library.Action
import DeepJit.Library.FileUpdates

/-!
# The helper that deploys the AICPU loader

`helper.py`, which packages the loader below a shadow of the installed toolkit: links to what the
toolkit holds, but for the package and operator configuration, of which the shadow has its own. Each
call of the operating system resolves its path again and may fail.
-/

namespace DeepJit.Ascend.Aicpu.Helper

open FileTree (Location Target Tree)

/-- A path of `pathlib`, with its last part first. -/
structure Path where
  absolute : Bool
  parts : List (FileTree.Part Bytes)

/-- `path / name`. -/
def Path.child (path : Path) (name : Bytes) : Path := { path with parts := .entry name :: path.parts }

def Path.target (path : Path) : Target Bytes := ⟨path.absolute, path.parts.reverse⟩

inductive OsError where
  | noEntry
  | fileExists
  | notDirectory
  | isDirectory
  | other
deriving DecidableEq

inductive Exception where
  | os (error : OsError)
  | unicode
  | runtime (function : String) (status : Int)
deriving DecidableEq

/-- The process and its surroundings: the links that a walk follows at most, the working directory,
which calls fail for a reason of their own, and what comes from the libraries that the helper
imports. -/
structure Host where
  links : Nat
  cwd : Location Bytes
  fails : Nat → Bool
  /-- `uuid.uuid4().hex`. -/
  hex : String
  /-- The encoding of the locale. -/
  decode : Bytes → Option String
  encode : String → Option Bytes
  /-- `hashlib.sha256(data).hexdigest()`. -/
  sha256 : Bytes → String
  /-- The archive of a directory with its files, under the name for the directory. -/
  archive : Bytes → List (Bytes × Bytes) → Bytes
  /-- What a function of the library of CANN returns. -/
  status : String → Int

structure Files where
  tree : Tree Bytes Bytes
  environ : List (String × Path) := []
  /-- How many calls of the operating system there were. -/
  calls : Nat := 0

abbrev Py : Type → Type := Action Exception Files

/-- `try: x except OSError as error: handler(error)`. -/
def tryOs {α : Type} (x : Py α) (handler : OsError → Py α) : Py α := fun s =>
  match x s with
  | (.error (.os error), s) => handler error s
  | outcome => outcome

section

variable (host : Host)

/-! ### Calls of the operating system -/

/-- A call that fails changes nothing. -/
def syscall {α : Type} (f : Tree Bytes Bytes → Except OsError (α × Tree Bytes Bytes)) : Py α := fun s =>
  let started := { s with calls := s.calls + 1 }
  if host.fails s.calls then (.error (.os .other), started)
  else
    match f s.tree with
    | .ok (value, tree) => (.ok value, { started with tree := tree })
    | .error error => (.error (.os error), started)

/-- Where a path leads. Errors on the way are not told apart. -/
def Path.leads (tree : Tree Bytes Bytes) (path : Path) : Option (Location Bytes × Nat) :=
  tree.walk host.links (path.target.start host.cwd) path.target.parts

/-- `os.mkdir` and `os.symlink`: a new entry. The last name of the path is not followed. -/
def place (node : FileTree.Node Bytes Bytes) (path : Path) : Py Unit :=
  syscall host fun tree =>
    match path.parts with
    | .entry name :: parent =>
        match Path.leads host tree { path with parts := parent } with
        | none => throw .noEntry
        | some (dir, _) =>
            if h : tree.isDirectory dir = true ∧ (tree.node (name :: dir)).isNone = true then
              return ((), tree.create name dir node h.1 h.2)
            else if tree.isDirectory dir then throw .fileExists
            else throw .notDirectory
    | _ => throw .fileExists

def isDir (path : Path) : Py Bool :=
  syscall host fun tree =>
    match path.leads host tree with
    | some (loc, _) => return (tree.isDirectory loc, tree)
    | none => return (false, tree)

def iterdir (path : Path) : Py (List Bytes) :=
  syscall host fun tree =>
    match path.leads host tree with
    | some (loc, _) => if tree.isDirectory loc then return (tree.entries loc, tree) else throw .notDirectory
    | none => throw .noEntry

/-- `open` with `O_RDONLY`. A descriptor is the location that was opened. -/
def openRead (path : Path) : Py (Location Bytes) :=
  syscall host fun tree =>
    match path.leads host tree with
    | some (loc, _) => if tree.isFile loc then return (loc, tree) else throw .isDirectory
    | none => throw .noEntry

/-- `open` with `O_WRONLY | O_CREAT | O_TRUNC`. -/
def openWrite (path : Path) : Py (Location Bytes) :=
  syscall host fun tree =>
    match tree.opened host.links (path.target.start host.cwd) path.target.parts with
    | none | some [] => throw .isDirectory
    | some (name :: dir) =>
        if h : tree.isDirectory dir = true ∧ (tree.node (name :: dir)).isNone = true then
          return (name :: dir, tree.create name dir (.file []) h.1 h.2)
        else return (name :: dir, tree.write (name :: dir) [])

def readAll (file : Location Bytes) : Py Bytes :=
  syscall host fun tree =>
    match tree.node file with
    | some (.file content) => return (content, tree)
    | _ => throw .other

def writeAll (file : Location Bytes) (data : Bytes) : Py Unit :=
  syscall host fun tree => return ((), tree.write file data)

def close : Py Unit := syscall host fun tree => return ((), tree)

/-! ### Files and directories -/

/-- The branch of `Path.mkdir` for an `OSError` other than `FileNotFoundError`. -/
def mkdirFailed (existOk : Bool) (path : Path) (error : OsError) : Py Unit := do
  if existOk then
    if ← isDir host path then pure () else Action.throw (.os error)
  else Action.throw (.os error)

/-- `Path.mkdir` without `parents`. -/
def mkdir (existOk : Bool) (path : Path) : Py Unit :=
  tryOs (place host .directory path) fun error =>
    match error with
    | .noEntry => Action.throw (.os .noEntry)
    | error => mkdirFailed host existOk path error

/-- `Path.mkdir` with `parents`. -/
def mkdirParents (absolute existOk : Bool) : List (FileTree.Part Bytes) → Py Unit
  | [] => mkdir host existOk ⟨absolute, []⟩
  | part :: parent =>
      tryOs (place host .directory ⟨absolute, part :: parent⟩) fun error =>
        match error with
        | .noEntry => do
            mkdirParents absolute true parent
            mkdir host existOk ⟨absolute, part :: parent⟩
        | error => mkdirFailed host existOk ⟨absolute, part :: parent⟩ error

def readBytes (path : Path) : Py Bytes := do
  let file ← openRead host path
  let data ← readAll host file
  close host
  pure data

/-- Text files have any of the three line endings. -/
def universalNewlines : List Char → List Char
  | [] => []
  | '\r' :: '\n' :: rest => '\n' :: universalNewlines rest
  | '\r' :: rest => '\n' :: universalNewlines rest
  | c :: rest => c :: universalNewlines rest

def readText (path : Path) : Py String := do
  let data ← readBytes host path
  match host.decode data with
  | some text => pure (String.ofList (universalNewlines text.toList))
  | none => Action.throw .unicode

def writeText (path : Path) (text : String) : Py Unit := do
  let file ← openWrite host path
  match host.encode text with
  | none => Action.throw .unicode
  | some data => do
      writeAll host file data
      close host

/-- `shutil.copyfile`. -/
def copyfile (source destination : Path) : Py Unit := do
  let input ← openRead host source
  let output ← openWrite host destination
  let data ← readAll host input
  writeAll host output data
  close host
  close host

/-- The files that an archive of a directory takes in. -/
def readFiles (dir : Path) : List Bytes → Py (List (Bytes × Bytes))
  | [] => pure []
  | name :: names => do
      let data ← readBytes host (dir.child name)
      let rest ← readFiles dir names
      pure ((name, data) :: rest)

/-- `tarfile.open(path, 'w:gz')` with one `add` of a directory. -/
def writeArchive (path stage : Path) (arcname : Bytes) : Py Unit := do
  let file ← openWrite host path
  let names ← iterdir host stage
  let files ← readFiles host stage names
  writeAll host file (host.archive arcname files)
  close host

/-! ### The helper -/

/-- The loop of `overlay`. -/
def linkEach (source destination : Path) (hidden : List Bytes) (names : List Bytes) : Py Unit :=
  names.forM fun name => do
    if !hidden.contains name then place host (.link (source.child name).target) (destination.child name) else pure ()

def overlay (source destination : Path) (hidden : List Bytes) : Py Unit := do
  mkdir host true destination
  if ← isDir host source then
    let names ← iterdir host source
    linkEach host source destination hidden names
  else pure ()

/-- Whitespace that `str.rstrip` removes. -/
def isSpace (c : Char) : Bool :=
  let n := c.toNat
  (0x09 ≤ n && n ≤ 0x0d) || (0x1c ≤ n && n ≤ 0x20) || n == 0x85 || n == 0xa0 || n == 0x1680 ||
    (0x2000 ≤ n && n ≤ 0x200a) || n == 0x2028 || n == 0x2029 || n == 0x202f || n == 0x205f || n == 0x3000

def rstrip (text : String) : String := String.ofList (text.toList.reverse.dropWhile isSpace).reverse

/-- `aicpu::entry`. -/
def entry : String := "deep_jit_aicpu_loader_v1"

def packageName : String := "deep_jit_aicpu_" ++ host.hex

def library : String := "lib" ++ packageName host ++ ".so"

def binHash (digest : String) : String := library host ++ "=" ++ digest ++ "\n"

/-- The package list of the toolkit, and the private package. -/
def manifest (installed : String) : String :=
  rstrip installed ++ "\n" ++ "name:" ++ packageName host ++ ".tar.gz\ninstall_path:2\noptional:true\n" ++
    "package_path:opp/vendors/" ++ packageName host ++ "/aicpu/kernel\nload_as_per_soc:false\n"

/-- The operator configuration that registers the entry. -/
def bootstrapJson : String :=
  "\x7b\"" ++ entry ++ "\": \x7b\"opInfo\": \x7b\"functionName\": \"" ++ entry ++ "\", \"kernelSo\": \"" ++
    library host ++ "\", \"opKernelLib\": \"AICPUKernel\"\x7d\x7d\x7d"

/-- The calls that deploy the package, up to the first that fails. -/
def deploy : List String → Py Unit
  | [] => pure ()
  | function :: functions =>
      if host.status function ≠ 0 then Action.throw (.runtime function (host.status function))
      else deploy functions

def main (cann state loader : Path) : Py Unit := do
  let name := bytes (packageName host)
  let shadow := state.child (bytes "shadow")
  let conf := shadow.child (bytes "conf")
  let opp := shadow.child (bytes "opp")
  let vendors := opp.child (bytes "vendors")
  let stage := (shadow.child (bytes "build")).child (bytes "aicpu_kernels_device")
  mkdirParents host stage.absolute false stage.parts
  copyfile host loader (stage.child (bytes (library host)))
  let copied ← readBytes host (stage.child (bytes (library host)))
  writeText host (stage.child (bytes "bin_hash.cfg")) (binHash host (host.sha256 copied))
  overlay host cann shadow [bytes "conf", bytes "opp", bytes "build"]
  overlay host (cann.child (bytes "conf")) conf [bytes "ascend_package_load.ini", bytes "bootstrap.json"]
  overlay host (cann.child (bytes "opp")) opp [bytes "vendors"]
  overlay host ((cann.child (bytes "opp")).child (bytes "vendors")) vendors [name]
  let package := ((vendors.child name).child (bytes "aicpu")).child (bytes "kernel")
  mkdirParents host package.absolute false package.parts
  writeArchive host (package.child (name ++ bytes ".tar.gz")) stage (bytes "aicpu_kernels_device")
  let installed ← readText host ((cann.child (bytes "conf")).child (bytes "ascend_package_load.ini"))
  writeText host (conf.child (bytes "ascend_package_load.ini")) (manifest host installed)
  writeText host (conf.child (bytes "bootstrap.json")) (bootstrapJson host)
  Action.modify fun s => { s with environ := s.environ ++
    [("ASCEND_HOME_PATH", shadow), ("ASCEND_LATEST_INSTALL_PATH", shadow), ("ASCEND_AICPU_PATH", shadow)] }
  let _ ← openRead host ((cann.child (bytes "lib64")).child (bytes "libascendcl.so"))
  deploy host ["aclInit", "aclrtSetDevice", "aclrtResetDevice", "aclFinalize"]

end

end DeepJit.Ascend.Aicpu.Helper
