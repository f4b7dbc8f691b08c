import DeepJit.Cache.Publication
import DeepJit.Utils.Filesystem
import DeepJit.Utils.Permissions

/-!
# Entries on a shared root

The two tasks of a cache entry that give permissions: the one of `DiskCache::entry` that sets up the
temporary directory, and the one of `DiskCacheEntry::commit`. What happens to the files in between is
up to the build.
-/

namespace DeepJit.Permissions

variable (host : Host)

/-- `temporary_path` in `entry`. -/
def temporaryPath (root : List Bytes) (uuid : Bytes) : List Bytes := uuid :: bytes "tmp" :: root

/-- The commit path. -/
def cachePath (root : List Bytes) (entryName : Bytes) : List Bytes := entryName :: bytes "cache" :: root

/-- Whether `status` found something with the SGID bit. -/
def hasSetGid : Option (FileTree.Node Bytes Bytes × Mode) → Bool
  | some (_, mode) => mode &&& setGid != 0
  | none => false

/-- The task of `entry` that creates the temporary directory. Its result is the SGID bit of the
root. -/
def setupTask (root : List Bytes) (uuid : Bytes) : FileIo Failure Bool := do
  let found ← (status host root).mapError fun errno => .panic "cache root status failed" none (some errno)
  makeDirs host (temporaryPath root uuid).tail (hasSetGid found)
  makeDirs host (temporaryPath root uuid) (hasSetGid found)
  pure (hasSetGid found)

/-- `std::filesystem::exists`. -/
def pathExists (path : List Bytes) : FileIo Failure Bool := do
  let found ← (status host path).mapError .filesystem
  pure found.isSome

/-- `safe_remove_all`, which ignores errors. -/
def removeAll (path : List Bytes) : FileIo Failure Unit := fun s =>
  match safeRemoveAll host.links host.base (removalDepth host.links s.tree) ⟨s.tree, []⟩ path with
  | some fs => (.ok (), { s with tree := fs.tree })
  | none => (.error .unfinished, s)

/-- What `commit` does when the rename fails. It gives up its source to an entry that is there. -/
def handleRenameError (source target : List Bytes) (errno : Errno) : FileIo Failure Unit := do
  let collided ←
    if errno = .fileExists ∨ errno = .notEmpty then pathExists host (Publication.kCommitFileName :: target)
    else pure false
  if collided then removeAll host source
  else FileIo.throw (.panic "cache rename failed" none (some errno))

/-- The task of `commit`. -/
def commitTask (source target : List Bytes) (shared : Bool) : FileIo Failure Unit := do
  writeFileSync host (Publication.kCommitFileName :: source) [] shared
  fsyncDir host source shared
  makeDirs host target.tail shared
  match ← (rename host source target).attempt with
  | .ok _ => pure ()
  | .error errno => handleRenameError host source target errno

end DeepJit.Permissions
