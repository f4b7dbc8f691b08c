import DeepJit.Basic
import DeepJit.Library.Durability
import DeepJit.Library.Transition

/-!
# Publication

The processes that share a cache root, as a transition system. Every call of `DiskCache::entry` is a
writer with its own temporary directory, since the results of `get_uuid` are distinct. A writer is a
caller, its commit tasks and the removal of its destructor; each of them may be overtaken at any
filesystem operation, and a task outlives its caller after a timeout. The system shows the
filesystem both as the processes see it and as it would be found after a power loss.
-/

namespace DeepJit.Publication

def kCommitFileName : Bytes := bytes ".committed"

/-- The `fsync_file` calls of `fsync_dir` below a directory: an entry is synced after everything in
it. -/
def fsyncEntries : Entries Bytes Bytes → List Nat
  | .nil => []
  | .file _ inode _ rest => inode :: fsyncEntries rest
  | .dir _ inode children rest => fsyncEntries children ++ inode :: fsyncEntries rest

/-- `fsync_dir`. -/
def fsyncDir (d : Directory Bytes Bytes) : List Nat := fsyncEntries d.entries ++ [d.inode]

/-- The directory with an empty marker. -/
def withMarker (d : Directory Bytes Bytes) : Directory Bytes Bytes := d.writeFile kCommitFileName []

inductive CallerPc where
  | idle
  /-- In `entry`, after a lookup that found no marker. -/
  | looked
  /-- `entry` threw while it set up the directory. -/
  | gaveUp
  | hit
  /-- With a miss, outside `commit`. -/
  | building
  | committing (task : Nat)
  | committed
  /-- Without an entry, at the end. -/
  | ended
deriving DecidableEq, Repr

/-- Where the task of a call of `commit` is. -/
inductive TaskPc where
  | idle
  | marking
  /-- Before the `fsync_file` of `write_file_sync`. -/
  | marked
  /-- In `fsync_dir`. -/
  | syncing (rest : List Nat)
  | moving
  /-- The rename failed because its target is not empty. -/
  | checking
  | removing
  | done
  | failed
deriving DecidableEq, Repr

def TaskPc.InFlight : TaskPc → Prop
  | .idle | .done | .failed => False
  | .marking | .marked | .syncing _ | .moving | .checking | .removing => True

inductive CleanupPc where
  | idle
  | running
  | done
deriving DecidableEq, Repr

structure Writer where
  caller : CallerPc := .idle
  abandoned : Bool := false
  tasks : Nat → TaskPc := fun _ => .idle
  cleanup : CleanupPc := .idle
  killed : Bool := false
  /-- Whether the directory is at its temporary path. -/
  temporary : Bool := false
  volume : Volume Bytes Bytes
  /-- What the directory held when `commit` was called first, and when it was renamed. -/
  built : Option (Directory Bytes Bytes) := none
  published : Option (Directory Bytes Bytes) := none

def Writer.setTask (x : Writer) (j : Nat) (pc : TaskPc) : Writer :=
  { x with tasks := Function.update x.tasks j pc }

/-- Whether `safe_remove_all` runs on the temporary path. -/
def Writer.Removing (x : Writer) : Prop := x.cleanup = .running ∨ ∃ j, x.tasks j = .removing

structure State where
  writers : Nat → Writer
  /-- The writer whose directory is at `cache/<entry name>`. -/
  cache : Bytes → Option Nat := fun _ => none
  /-- The same on the device. -/
  durableCache : Bytes → Option Nat := fun _ => none

namespace State

def set (s : State) (w : Nat) (x : Writer) : State :=
  { s with writers := Function.update s.writers w x }

/-- `std::filesystem::exists(path / kCommitFileName)` for an entry. -/
def Marked (s : State) (entryName : Bytes) : Prop :=
  ∃ v, s.cache entryName = some v ∧ (s.writers v).volume.directory.Contains kCommitFileName

/-- A rename onto the entry succeeds. -/
def Free (s : State) (entryName : Bytes) : Prop :=
  ∀ v, s.cache entryName = some v → (s.writers v).volume.directory.entries = .nil

/-- The whole directory of a writer moves from its temporary path to its entry. -/
def rename (s : State) (entryName : Bytes) (w j : Nat) : State :=
  { s.set w { (s.writers w).setTask j .done with
      temporary := false, published := some (s.writers w).volume.directory } with
    cache := Function.update s.cache entryName (some w) }

end State

inductive Action where
  | writer (w : Nat)
  | device

/-- One step of a writer, or of the device. Writer `w` calls `entry` for the entry name
`entryName w`. -/
inductive Step (entryName : Nat → Bytes) : State → Action → State → Prop where
  | hit {s : State} {w : Nat} (halive : (s.writers w).killed = false)
      (hpc : (s.writers w).caller = .idle) (hmarked : s.Marked (entryName w)) :
      Step entryName s (.writer w) (s.set w { s.writers w with caller := .hit })
  | miss {s : State} {w : Nat} (halive : (s.writers w).killed = false)
      (hpc : (s.writers w).caller = .idle) (hmarked : ¬s.Marked (entryName w)) :
      Step entryName s (.writer w) (s.set w { s.writers w with caller := .looked })
  | lookupFails {s : State} {w : Nat} (halive : (s.writers w).killed = false)
      (hpc : (s.writers w).caller = .idle) :
      Step entryName s (.writer w) (s.set w { s.writers w with caller := .ended })
  | setUp {s : State} {w : Nat} {v : Volume Bytes Bytes} (halive : (s.writers w).killed = false)
      (hpc : (s.writers w).caller = .looked) (hempty : v.directory.entries = .nil) :
      Step entryName s (.writer w)
        (s.set w { s.writers w with caller := .building, temporary := true, volume := v })
  | setUpFails {s : State} {w : Nat} (halive : (s.writers w).killed = false)
      (hpc : (s.writers w).caller = .looked) :
      Step entryName s (.writer w) (s.set w { s.writers w with caller := .gaveUp })
  /-- The task of a setup that timed out. -/
  | setUpLate {s : State} {w : Nat} {v : Volume Bytes Bytes} (halive : (s.writers w).killed = false)
      (hpc : (s.writers w).caller = .gaveUp) (hempty : v.directory.entries = .nil) :
      Step entryName s (.writer w)
        (s.set w { s.writers w with caller := .ended, temporary := true, volume := v })
  /-- Any change below the temporary path. It may come from a task that timed out. No such task is
  left when `commit` is called, because `compile_impl` gives an entry up after a timeout, and
  nothing is written from then on. -/
  | write {s : State} {w : Nat} {d : Directory Bytes Bytes} (halive : (s.writers w).killed = false)
      (hpc : (s.writers w).caller = .building ∨ (s.writers w).caller = .ended)
      (htemporary : (s.writers w).temporary = true) (hbuilt : (s.writers w).built = none)
      (hroot : d.inode = (s.writers w).volume.directory.inode) :
      Step entryName s (.writer w)
        (s.set w { s.writers w with volume := (s.writers w).volume.modify d })
  | commit {s : State} {w j : Nat} (halive : (s.writers w).killed = false)
      (hpc : (s.writers w).caller = .building)
      (htask : (s.writers w).tasks j = .idle) :
      Step entryName s (.writer w) (s.set w { (s.writers w).setTask j .marking with
        caller := .committing j
        built := some ((s.writers w).built.getD (s.writers w).volume.directory) })
  | commitReturns {s : State} {w j : Nat} (halive : (s.writers w).killed = false)
      (hpc : (s.writers w).caller = .committing j) (htask : (s.writers w).tasks j = .done) :
      Step entryName s (.writer w) (s.set w { s.writers w with caller := .committed })
  | commitThrows {s : State} {w j : Nat} (halive : (s.writers w).killed = false)
      (hpc : (s.writers w).caller = .committing j) (htask : (s.writers w).tasks j = .failed) :
      Step entryName s (.writer w) (s.set w { s.writers w with caller := .building })
  /-- `commit` throws after a timeout. Its task goes on. -/
  | commitExpires {s : State} {w j : Nat} (halive : (s.writers w).killed = false)
      (hpc : (s.writers w).caller = .committing j) :
      Step entryName s (.writer w)
        (s.set w { s.writers w with caller := .building, abandoned := true })
  /-- The handler of `compile_impl` assigns to `abandoned`. After a timeout of `commit` it assigns
  `true`. -/
  | abandon {s : State} {w : Nat} {abandoned : Bool} (halive : (s.writers w).killed = false)
      (hpc : (s.writers w).caller = .building)
      (htasks : abandoned = false → ∀ j, ¬((s.writers w).tasks j).InFlight) :
      Step entryName s (.writer w) (s.set w { s.writers w with abandoned := abandoned })
  | destroy {s : State} {w : Nat} (halive : (s.writers w).killed = false)
      (hpc : ((s.writers w).caller = .building ∧ (s.writers w).abandoned = true) ∨
        (s.writers w).caller = .hit ∨
        (s.writers w).caller = .committed) :
      Step entryName s (.writer w) (s.set w { s.writers w with caller := .ended })
  | destroyCleans {s : State} {w : Nat} (halive : (s.writers w).killed = false)
      (hpc : (s.writers w).caller = .building) (habandoned : (s.writers w).abandoned = false) :
      Step entryName s (.writer w)
        (s.set w { s.writers w with caller := .ended, cleanup := .running })
  | cleaned {s : State} {w : Nat} (halive : (s.writers w).killed = false)
      (hpc : (s.writers w).cleanup = .running) :
      Step entryName s (.writer w) (s.set w { s.writers w with cleanup := .done })
  | mark {s : State} {w j : Nat} (halive : (s.writers w).killed = false)
      (hpc : (s.writers w).tasks j = .marking) (htemporary : (s.writers w).temporary = true)
      (hfile : (s.writers w).volume.directory.entries.isDirectory kCommitFileName = false) :
      Step entryName s (.writer w) (s.set w { (s.writers w).setTask j .marked with
        volume := (s.writers w).volume.modify (withMarker (s.writers w).volume.directory) })
  | syncMarker {s : State} {w j inode : Nat} (halive : (s.writers w).killed = false)
      (hpc : (s.writers w).tasks j = .marked) (htemporary : (s.writers w).temporary = true)
      (hinode : (kCommitFileName, inode) ∈ (s.writers w).volume.directory.entries.listing) :
      Step entryName s (.writer w) (s.set w
        { (s.writers w).setTask j (.syncing (fsyncDir (s.writers w).volume.directory)) with
          volume := (s.writers w).volume.fsync inode })
  | sync {s : State} {w j inode : Nat} {rest : List Nat} (halive : (s.writers w).killed = false)
      (hpc : (s.writers w).tasks j = .syncing (inode :: rest)) (htemporary : (s.writers w).temporary = true) :
      Step entryName s (.writer w) (s.set w
        { (s.writers w).setTask j (.syncing rest) with volume := (s.writers w).volume.fsync inode })
  | makeDirs {s : State} {w j : Nat} (halive : (s.writers w).killed = false)
      (hpc : (s.writers w).tasks j = .syncing []) :
      Step entryName s (.writer w) (s.set w ((s.writers w).setTask j .moving))
  | rename {s : State} {w j : Nat} (halive : (s.writers w).killed = false)
      (hpc : (s.writers w).tasks j = .moving)
      (htemporary : (s.writers w).temporary = true) (hfree : s.Free (entryName w)) :
      Step entryName s (.writer w) (s.rename (entryName w) w j)
  | collide {s : State} {w j : Nat} (halive : (s.writers w).killed = false)
      (hpc : (s.writers w).tasks j = .moving)
      (htemporary : (s.writers w).temporary = true) (hfree : ¬s.Free (entryName w)) :
      Step entryName s (.writer w) (s.set w ((s.writers w).setTask j .checking))
  | complete {s : State} {w j : Nat} (halive : (s.writers w).killed = false)
      (hpc : (s.writers w).tasks j = .checking) (hmarked : s.Marked (entryName w)) :
      Step entryName s (.writer w) (s.set w ((s.writers w).setTask j .removing))
  | removed {s : State} {w j : Nat} (halive : (s.writers w).killed = false)
      (hpc : (s.writers w).tasks j = .removing) :
      Step entryName s (.writer w) (s.set w ((s.writers w).setTask j .done))
  | fail {s : State} {w j : Nat} (halive : (s.writers w).killed = false)
      (hpc : ((s.writers w).tasks j).InFlight) :
      Step entryName s (.writer w) (s.set w ((s.writers w).setTask j .failed))
  | remove {s : State} {w : Nat} {d : Directory Bytes Bytes} (halive : (s.writers w).killed = false)
      (hpc : (s.writers w).Removing) (htemporary : (s.writers w).temporary = true)
      (hroot : d.inode = (s.writers w).volume.directory.inode)
      (hremoves : Entries.Removes (s.writers w).volume.directory.entries d.entries) :
      Step entryName s (.writer w)
        (s.set w { s.writers w with volume := (s.writers w).volume.modify d })
  | removeRoot {s : State} {w : Nat} (halive : (s.writers w).killed = false)
      (hpc : (s.writers w).Removing)
      (htemporary : (s.writers w).temporary = true) (hempty : (s.writers w).volume.directory.entries = .nil) :
      Step entryName s (.writer w) (s.set w { s.writers w with temporary := false })
  | kill {s : State} {w : Nat} :
      Step entryName s (.writer w) (s.set w { s.writers w with killed := true })
  | persist {s : State} {w inode : Nat} {node : Option (Node Bytes Bytes)}
      (hsynced : inode ∉ (s.writers w).volume.synced) :
      Step entryName s .device (s.set w
        { s.writers w with volume := (s.writers w).volume.persist inode node hsynced })
  /-- A rename becomes durable. -/
  | persistRename {s : State} (n : Bytes) :
      Step entryName s .device { s with durableCache := Function.update s.durableCache n (s.cache n) }

/-- A cache root without entries. -/
def system (entryName : Nat → Bytes) : TransitionSystem State Action where
  init s := (∀ w, ∃ v, s.writers w = { volume := v }) ∧ s.cache = (fun _ => none) ∧
    s.durableCache = fun _ => none
  step := Step entryName

end DeepJit.Publication
