import DeepJit.Basic
import DeepJit.Library.FileUpdates
import Mathlib.Logic.Function.Basic

/-!
# Shared permissions

The functions of `utils/filesystem.hpp` that write, set permissions and sync, on a tree whose entries
have modes. Each call of the operating system resolves its path again and may fail. What a call
changes is recorded with the location that it reached.
-/

namespace DeepJit.Permissions

open FileTree (Location Tree)

/-- The permission bits, below the bits for the user ID, the group ID and the sticky text. -/
abbrev Mode := BitVec 12

/-- `std::filesystem::perms::set_gid`. -/
def setGid : Mode := 0o2000

inductive Errno where
  | noEntry
  | fileExists
  | notDirectory
  | isDirectory
  | invalid
  | notEmpty
  | other (code : Nat)
deriving DecidableEq, Repr

/-- An exception: `DJ_PANIC` with the start of its text, the path in it and the error behind it, or
an exception of the filesystem library. -/
inductive Failure where
  | panic (text : String) (path : Option (List Bytes)) (reason : Option Errno)
  | filesystem (reason : Errno)
  /-- The recursion was cut off. -/
  | unfinished

inductive Effect where
  | mkdir (loc : Location Bytes) (mode : Mode)
  | create (loc : Location Bytes) (mode : Mode)
  | chmod (loc : Location Bytes) (before after : Mode)
  | fsync (loc : Location Bytes)
  | rename (source target : Location Bytes)

/-- The modes after an effect. What is moved keeps its mode. -/
def Effect.apply (mode : Location Bytes → Mode) : Effect → Location Bytes → Mode
  | .mkdir loc new | .create loc new | .chmod loc _ new => Function.update mode loc new
  | .fsync _ => mode
  | .rename source target => fun loc =>
      if target <:+ loc then mode (Tree.below target loc ++ source) else mode loc

structure Files where
  tree : Tree Bytes Bytes
  mode : Location Bytes → Mode
  log : List Effect := []
  /-- How many calls of the operating system there were. -/
  calls : Nat := 0

def Files.record (s : Files) (effect : Effect) : Files :=
  { s with mode := effect.apply s.mode, log := s.log ++ [effect] }

/-- The process and its surroundings: the number of links that a walk follows at most, the location
where paths start, the umask, and which calls of the operating system fail for a reason of their
own. -/
structure Host where
  links : Nat
  base : Location Bytes
  umask : Mode
  fault : Nat → Option Errno

/-- A computation on files that returns or throws. -/
def FileIo (ε α : Type) : Type := Files → Except ε α × Files

instance monadFileIo {ε : Type} : Monad (FileIo ε) where
  pure value := fun s => (.ok value, s)
  bind x f := fun s =>
    match x s with
    | (.ok value, s) => f value s
    | (.error error, s) => (.error error, s)

namespace FileIo

variable {ε ε' α : Type}

def throw (error : ε) : FileIo ε α := fun s => (.error error, s)

def mapError (f : ε → ε') (x : FileIo ε α) : FileIo ε' α := fun s =>
  match x s with
  | (.ok value, s) => (.ok value, s)
  | (.error error, s) => (.error (f error), s)

/-- The call with an `error_code` argument. -/
def attempt (x : FileIo ε α) : FileIo ε' (Except ε α) := fun s =>
  match x s with
  | (outcome, s) => (.ok outcome, s)

end FileIo

section

variable (host : Host)

/-! ### Calls of the operating system -/

/-- A call that fails changes nothing. -/
def syscall {α : Type} (f : Files → Except Errno (α × Files)) : FileIo Errno α := fun s =>
  let started := { s with calls := s.calls + 1 }
  match host.fault s.calls with
  | some errno => (.error errno, started)
  | none =>
      match f started with
      | .ok (value, ended) => (.ok value, ended)
      | .error errno => (.error errno, started)

/-- Where a path leads. Errors on the way are not told apart. -/
def Files.resolve (s : Files) (path : List Bytes) : Except Errno (Location Bytes) :=
  match s.tree.resolve host.links host.base path with
  | some (loc, _) => .ok loc
  | none => .error .noEntry

/-- `open` with `O_RDONLY`. A descriptor is the location that was opened. -/
def openRead (path : List Bytes) : FileIo Errno (Location Bytes) :=
  syscall host fun s => return (← s.resolve host path, s)

def fsync (file : Location Bytes) : FileIo Errno Unit :=
  syscall host fun s => return ((), s.record (.fsync file))

def close : FileIo Errno Unit := syscall host fun s => return ((), s)

/-- `std::filesystem::status`. A missing file is no error. -/
def status (path : List Bytes) : FileIo Errno (Option (FileTree.Node Bytes Bytes × Mode)) :=
  syscall host fun s =>
    match s.resolve host path with
    | .ok loc => return ((s.tree.node loc).map fun node => (node, s.mode loc), s)
    | .error _ => return (none, s)

/-- `status(...).permissions()`, which is `perms::unknown` for a missing file. -/
def permissions : Option (FileTree.Node Bytes Bytes × Mode) → Mode
  | some (_, mode) => mode
  | none => BitVec.allOnes 12

/-- `std::filesystem::symlink_status` of an entry of a directory. -/
def symlinkStatus (path : List Bytes) (name : Bytes) : FileIo Errno (Option (FileTree.Node Bytes Bytes)) :=
  syscall host fun s => return (s.tree.node (name :: (← s.resolve host path)), s)

/-- The names that a `directory_iterator` goes through. -/
def readDirectory (path : List Bytes) : FileIo Errno (List Bytes) :=
  syscall host fun s => do
    let loc ← s.resolve host path
    if s.tree.isDirectory loc then return (s.tree.entries loc, s) else throw .notDirectory

/-- `std::filesystem::permissions` with `perm_options::replace`, by a member of the group. -/
def chmod (path : List Bytes) (mode : Mode) : FileIo Errno Unit :=
  syscall host fun s => do
    let loc ← s.resolve host path
    return ((), s.record (.chmod loc (s.mode loc) mode))

/-- `mkdir`. A directory inherits the SGID bit of the one that holds it. -/
def mkdir : List Bytes → FileIo Errno Unit
  | [] => FileIo.throw .fileExists
  | name :: parent => syscall host fun s => do
      let dir ← s.resolve host parent
      if h : s.tree.isDirectory dir = true ∧ (s.tree.node (name :: dir)).isNone = true then
        return ((), Files.record { s with tree := s.tree.create name dir .directory h.1 h.2 }
          (.mkdir (name :: dir) (0o777 &&& ~~~host.umask ||| s.mode dir &&& setGid)))
      else throw .fileExists

/-- The file that opening a path for writing leads to, if it can be opened. -/
def Files.opened (s : Files) (path : List Bytes) : Option (Location Bytes) :=
  s.tree.opened host.links host.base (path.reverse.map .entry)

/-- `open` with `O_WRONLY | O_CREAT | O_TRUNC`, as a `std::ofstream` does it. -/
def openWrite (path : List Bytes) : FileIo Errno (Location Bytes) :=
  syscall host fun s =>
    match s.opened host path with
    | none | some [] => throw .isDirectory
    | some (name :: dir) =>
        if h : s.tree.isDirectory dir = true ∧ (s.tree.node (name :: dir)).isNone = true then
          return (name :: dir, Files.record { s with tree := s.tree.create name dir (.file []) h.1 h.2 }
            (.create (name :: dir) (0o666 &&& ~~~host.umask)))
        else return (name :: dir, { s with tree := s.tree.write (name :: dir) [] })

def write (file : Location Bytes) (data : Bytes) : FileIo Errno Unit :=
  syscall host fun s => return ((), { s with tree := s.tree.write file data })

/-- `rename`, which follows neither last name. A directory is moved to a missing name or over an
empty directory, but not to a place inside itself. -/
def rename : List Bytes → List Bytes → FileIo Errno Unit
  | name :: parent, name' :: parent' => syscall host fun s => do
      let dir ← s.resolve host parent
      let dir' ← s.resolve host parent'
      let moved := Files.record { s with tree := s.tree.move name dir name' dir' }
        (.rename (name :: dir) (name' :: dir'))
      if (s.tree.node (name :: dir)).isNone then throw .noEntry
      else if s.tree.isDirectory dir' = false then throw .notDirectory
      else if name :: dir = name' :: dir' then return ((), s.record (.rename (name :: dir) (name' :: dir')))
      else if s.tree.isDirectory (name :: dir) then
        if name :: dir <:+ dir' then throw .invalid
        else if (s.tree.node (name' :: dir')).isNone then return ((), moved)
        else if s.tree.isDirectory (name' :: dir') = false then throw .notDirectory
        else if s.tree.entries (name' :: dir') = [] then return ((), moved)
        else throw .notEmpty
      else if s.tree.isDirectory (name' :: dir') then throw .isDirectory
      else return ((), moved)
  | _, _ => FileIo.throw .invalid

/-! ### Syncing and permissions -/

def fsyncFile (path : List Bytes) : FileIo Failure Unit := do
  let fd ← (openRead host path).mapError fun errno => .panic "failed to open for fsync" path (some errno)
  (fsync host fd).mapError fun errno => .panic "failed to fsync" path (some errno)
  (close host).mapError fun errno => .panic "failed to close after fsync" path (some errno)

def setSharedPermissions (path : List Bytes) (directory shared : Bool) : FileIo Failure Unit :=
  if !shared then pure ()
  else do
    let sgid ←
      if directory then do
        let found ← (status host path).mapError .filesystem
        pure (permissions found &&& setGid)
      else pure 0
    (chmod host path ((if directory then 0o775 else 0o664) ||| sgid)).mapError fun errno =>
      .panic "failed to set permissions" path (some errno)

/-- The loop of `fsync_dir` at one entry. Links are not followed. -/
def fsyncEntry (shared : Bool) (recurse : List Bytes → FileIo Failure Unit) (path : List Bytes)
    (name : Bytes) : FileIo Failure Unit := do
  match ← (symlinkStatus host path name).mapError .filesystem with
  | some .directory => recurse (name :: path)
  | some (.file _) => do
      setSharedPermissions host (name :: path) false shared
      fsyncFile host (name :: path)
  | _ => pure ()

/-- `fsync_dir`, at most `fuel` directories deep. -/
def fsyncDirWith (shared : Bool) : Nat → List Bytes → FileIo Failure Unit
  | 0, _ => FileIo.throw .unfinished
  | fuel + 1, path => do
      setSharedPermissions host path true shared
      let names ← (readDirectory host path).mapError .filesystem
      names.forM (fsyncEntry host shared (fsyncDirWith shared fuel) path)
      fsyncFile host path

/-- The recursion does not follow links, so it is not deeper than the tree. -/
def fsyncDir (path : List Bytes) (shared : Bool) : FileIo Failure Unit := fun s =>
  fsyncDirWith host shared (s.tree.depth + 1) path s

/-- `std::filesystem::create_directories`: whether the last directory of the path was created. -/
def createDirectories : List Bytes → FileIo Errno Bool
  | [] => do
      match ← status host [] with
      | some (.directory, _) => pure false
      | some _ => FileIo.throw .notDirectory
      | none => FileIo.throw .noEntry
  | name :: parent => do
      match ← status host (name :: parent) with
      | some (.directory, _) => pure false
      | some _ => FileIo.throw .notDirectory
      | none => do
          let _ ← createDirectories parent
          mkdir host (name :: parent)
          pure true

def makeDirs (path : List Bytes) (shared : Bool) : FileIo Failure Unit := do
  let created ← (createDirectories host path).mapError fun _ => .panic "failed to create directory" path none
  if created then setSharedPermissions host path true shared else pure ()

def writeFileSync (path : List Bytes) (data : Bytes) (shared : Bool) : FileIo Failure Unit := do
  let output ← (openWrite host path).mapError fun _ => .panic "failed to open for writing" path none
  (write host output data).mapError fun _ => .panic "failed to write" path none
  (close host).mapError fun _ => .panic "failed to close after writing" path none
  setSharedPermissions host path false shared
  fsyncFile host path

end

end DeepJit.Permissions
