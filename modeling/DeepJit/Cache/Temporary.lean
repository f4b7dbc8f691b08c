import DeepJit.Basic
import DeepJit.Library.Transition
import Mathlib.Logic.Function.Basic

/-!
# Temporary directories

The writers that share `<root>/tmp`, as a transition system. A writer is one attempt of the write
pass of `DiskCache::entry`, with the entry that it returns, up to the end of its destructor. Its
directory is named by `get_uuid`, which may return any name. The tasks and commands of a writer
work on whatever directory stands at that name, and outlive their caller after a timeout.
-/

namespace DeepJit.Temporary

/-- What runs for a writer: tasks and commands of the build, the task of `commit`, and
`safe_remove_all` of the temporary path, in `commit` after a lost rename or in the destructor. -/
inductive Task where
  | build
  | commit
  | remove
deriving DecidableEq

inductive Caller where
  | idle
  /-- In the set-up of the directory, with its name. -/
  | setting
  /-- With a miss entry. -/
  | holding
  | waiting (task : Task)
  /-- In the destructor of an entry that is neither published nor abandoned. -/
  | failed
  | ended
deriving DecidableEq

structure Writer where
  name : Bytes := []
  caller : Caller := .idle
  /-- What still runs after a timeout. -/
  late : List Task := []
  lateSetUp : Bool := false

inductive Use where
  | returned
  | built
  | published
  | cleaned
deriving DecidableEq

/-- A writer got or used a directory. -/
structure Event where
  writer : Nat
  use : Use
  directory : Nat
deriving DecidableEq

/-- Directories are numbered in the order of their creation. -/
structure State where
  writers : Nat → Writer := fun _ => {}
  /-- What stands at each path below `<root>/tmp`. -/
  tmp : Bytes → Option Nat
  next : Nat
  /-- The writer whose set-up created a directory, unless it was there from the start. -/
  creator : Nat → Option Nat := fun _ => none
  log : List Event := []

namespace State

def name (s : State) (w : Nat) : Bytes := (s.writers w).name

def set (s : State) (w : Nat) (x : Writer) : State :=
  { s with writers := Function.update s.writers w x }

/-- `mkdir` of the temporary path. -/
def create (s : State) (w : Nat) : State :=
  { s with
    tmp := Function.update s.tmp (s.name w) (some s.next)
    next := s.next + 1
    creator := Function.update s.creator s.next (some w) }

def record (s : State) (w : Nat) (use : Use) (directory : Nat) : State :=
  { s with log := ⟨w, use, directory⟩ :: s.log }

/-- The directory is renamed or removed. -/
def vacate (s : State) (w : Nat) : State :=
  { s with tmp := Function.update s.tmp (s.name w) none }

end State

inductive Outcome where
  | more (task : Task)
  | returned
  | threw

/-- What a task does to the directory at its writer's path. -/
inductive Act (s : State) (w : Nat) : Task → State → Outcome → Prop where
  | build {d : Nat} (hd : s.tmp (s.name w) = some d) : Act s w .build (s.record w .built d) (.more .build)
  | built : Act s w .build s .returned
  | buildThrows : Act s w .build s .threw
  /-- The marker and `fsync_dir`. -/
  | mark {d : Nat} (hd : s.tmp (s.name w) = some d) : Act s w .commit (s.record w .published d) (.more .commit)
  | rename {d : Nat} (hd : s.tmp (s.name w) = some d) :
      Act s w .commit ((s.record w .published d).vacate w) .returned
  /-- Another writer was first. -/
  | lose : Act s w .commit s (.more .remove)
  | commitThrows : Act s w .commit s .threw
  | clean {d : Nat} (hd : s.tmp (s.name w) = some d) : Act s w .remove (s.record w .cleaned d) (.more .remove)
  | remove {d : Nat} (hd : s.tmp (s.name w) = some d) :
      Act s w .remove ((s.record w .cleaned d).vacate w) .returned
  | leave : Act s w .remove s .returned

/-- Where the caller of a task goes on. -/
def Caller.after : Task → Outcome → Caller
  | _, .more task => .waiting task
  | .build, .returned => .holding
  | .build, .threw | .commit, .threw => .failed
  | .commit, .returned | .remove, .returned | .remove, .threw => .ended

/-- Where the caller goes on after a timeout. An entry is abandoned, but by a caller without fallback
only in `commit`. -/
def Caller.afterTimeout (fallbackDisabled : Bool) : Task → Caller
  | .build => if fallbackDisabled then .failed else .ended
  | .commit | .remove => .ended

def Outcome.late : Outcome → List Task
  | .more task => [task]
  | .returned | .threw => []

def Caller.tasks : Caller → List Task
  | .waiting task => [task]
  | _ => []

inductive Action where
  | setUp (w : Nat)
  | clean (w : Nat)
  | other (w : Nat)

/-- One step of a writer. -/
inductive Step (fallbackDisabled : Nat → Bool) : State → Action → State → Prop where
  | call {s : State} {w : Nat} (name : Bytes) (hcaller : (s.writers w).caller = .idle) :
      Step fallbackDisabled s (.other w) (s.set w { s.writers w with name := name, caller := .setting })
  | setUp {s : State} {w : Nat} (hcaller : (s.writers w).caller = .setting) (hnew : s.tmp (s.name w) = none) :
      Step fallbackDisabled s (.setUp w)
        (((s.create w).record w .returned s.next).set w { s.writers w with caller := .holding })
  /-- `make_dirs` accepts a directory that is there. -/
  | setUpFound {s : State} {w d : Nat} (hcaller : (s.writers w).caller = .setting)
      (hfound : s.tmp (s.name w) = some d) :
      Step fallbackDisabled s (.setUp w)
        ((s.record w .returned d).set w { s.writers w with caller := .holding })
  | setUpThrows {s : State} {w : Nat} (hcaller : (s.writers w).caller = .setting) :
      Step fallbackDisabled s (.other w) (s.set w { s.writers w with caller := .ended })
  /-- The permissions of the new directory cannot be set. -/
  | setUpHalf {s : State} {w : Nat} (hcaller : (s.writers w).caller = .setting) (hnew : s.tmp (s.name w) = none) :
      Step fallbackDisabled s (.other w) ((s.create w).set w { s.writers w with caller := .ended })
  | setUpExpires {s : State} {w : Nat} (hcaller : (s.writers w).caller = .setting) :
      Step fallbackDisabled s (.other w)
        (s.set w { s.writers w with caller := .ended, lateSetUp := true })
  | lateSetUp {s : State} {w : Nat} (hlate : (s.writers w).lateSetUp = true) (hnew : s.tmp (s.name w) = none) :
      Step fallbackDisabled s (.other w) ((s.create w).set w { s.writers w with lateSetUp := false })
  | start {s : State} {w : Nat} (task : Task) (hcaller : (s.writers w).caller = .holding) (htask : task ≠ .remove) :
      Step fallbackDisabled s (.other w) (s.set w { s.writers w with caller := .waiting task })
  | fail {s : State} {w : Nat} (hcaller : (s.writers w).caller = .holding) :
      Step fallbackDisabled s (.other w) (s.set w { s.writers w with caller := .failed })
  /-- With fallback, an error that speaks of a command timeout. -/
  | abandon {s : State} {w : Nat} (hcaller : (s.writers w).caller = .failed) (hfallback : fallbackDisabled w = false) :
      Step fallbackDisabled s (.other w) (s.set w { s.writers w with caller := .ended })
  | clean {s : State} {w : Nat} (hcaller : (s.writers w).caller = .failed) :
      Step fallbackDisabled s (.clean w) (s.set w { s.writers w with caller := .waiting .remove })
  | act {s t : State} {w : Nat} {task : Task} {outcome : Outcome} (hcaller : (s.writers w).caller = .waiting task)
      (hact : Act s w task t outcome) :
      Step fallbackDisabled s (.other w) (t.set w { s.writers w with caller := .after task outcome })
  | expire {s : State} {w : Nat} {task : Task} (hcaller : (s.writers w).caller = .waiting task) :
      Step fallbackDisabled s (.other w)
        (s.set w { s.writers w with
          caller := .afterTimeout (fallbackDisabled w) task, late := (s.writers w).late ++ [task] })
  | lateAct {s t : State} {w : Nat} {before later : List Task} {task : Task} {outcome : Outcome}
      (hlate : (s.writers w).late = before ++ task :: later) (hact : Act s w task t outcome) :
      Step fallbackDisabled s (.other w)
        (t.set w { s.writers w with late := before ++ outcome.late ++ later })
  /-- A task or command ends with its process, or by itself. -/
  | lateEnds {s : State} {w : Nat} {before later : List Task} {task : Task}
      (hlate : (s.writers w).late = before ++ task :: later) :
      Step fallbackDisabled s (.other w) (s.set w { s.writers w with late := before ++ later })
  /-- The process dies. Its commands may go on. -/
  | kill {s : State} {w : Nat} :
      Step fallbackDisabled s (.other w)
        (s.set w { s.writers w with
          caller := .ended, late := (s.writers w).late ++ (s.writers w).caller.tasks })

/-- Any directories may be there. -/
structure Initial (s : State) : Prop where
  writers : ∀ w, s.writers w = {}
  tmp : ∀ path d, s.tmp path = some d → d < s.next
  creator : ∀ d, s.creator d = none
  log : s.log = []

def system (fallbackDisabled : Nat → Bool) : TransitionSystem State Action where
  init := Initial
  step := Step fallbackDisabled

/-- A set-up finds nothing at its path, and a destructor removes a directory only when nothing that
ran in it is still running. -/
def Careful (s : State) : Action → Prop
  | .setUp w => s.tmp (s.name w) = none
  | .clean w => (s.writers w).late = []
  | .other _ => True

/-- The runs in which every step is careful. -/
def carefulSystem (fallbackDisabled : Nat → Bool) : TransitionSystem State Action where
  init := Initial
  step s a t := Careful s a ∧ Step fallbackDisabled s a t

/-- Whatever directory a writer got, built in, published or cleaned up is one that its own call
created, and no other writer did any of this to it. -/
structure Private (s : State) : Prop where
  own : ∀ event ∈ s.log, s.creator event.directory = some event.writer
  alone : ∀ event ∈ s.log, ∀ other ∈ s.log, event.directory = other.directory → event.writer = other.writer

end DeepJit.Temporary
