import Mathlib.Data.List.Nodup
import Mathlib.Logic.Function.Basic

/-!
# Directory trees on a device with a volatile cache

A directory tree as processes see it, and what of it a device holds. `fsync` of a file makes its
content durable, and `fsync` of a directory makes its entries durable. Whatever was not synced since
the last change may be on the device in any form. Names and contents are of any type.
-/

namespace DeepJit

/-- The entries of a directory in the order of their iteration. Every file and directory has an
inode. -/
inductive Entries (ν β : Type) where
  | nil
  | file (name : ν) (inode : Nat) (content : β) (rest : Entries ν β)
  | dir (name : ν) (inode : Nat) (children rest : Entries ν β)
deriving DecidableEq, Repr

/-- What a device stores for an inode. -/
inductive Node (ν β : Type) where
  | file (content : β)
  | dir (entries : List (ν × Nat))
deriving DecidableEq, Repr

variable {ν β : Type}

namespace Entries

/-- The names in a directory and their inodes. -/
def listing : Entries ν β → List (ν × Nat)
  | nil => []
  | file name inode _ rest => (name, inode) :: rest.listing
  | dir name inode _ rest => (name, inode) :: rest.listing

/-- Every file and directory below a directory. -/
def nodes : Entries ν β → List (Nat × Node ν β)
  | nil => []
  | file _ inode content rest => (inode, .file content) :: rest.nodes
  | dir _ inode children rest => children.nodes ++ (inode, .dir children.listing) :: rest.nodes

def inodes (entries : Entries ν β) : List Nat := entries.nodes.map Prod.fst

@[simp] theorem inodes_nil : (nil : Entries ν β).inodes = [] := rfl

@[simp] theorem inodes_file (name : ν) (inode : Nat) (content : β) (rest : Entries ν β) :
    (file name inode content rest).inodes = inode :: rest.inodes := rfl

@[simp] theorem inodes_dir (name : ν) (inode : Nat) (children rest : Entries ν β) :
    (dir name inode children rest).inodes = children.inodes ++ inode :: rest.inodes := by
  simp [inodes, nodes]

/-- A device holds everything below a directory. -/
def StoredOn (device : Nat → Option (Node ν β)) : Entries ν β → Prop
  | nil => True
  | file _ inode content rest => device inode = some (.file content) ∧ rest.StoredOn device
  | dir _ inode children rest =>
      device inode = some (.dir children.listing) ∧ children.StoredOn device ∧ rest.StoredOn device

theorem storedOn_iff (device : Nat → Option (Node ν β)) (entries : Entries ν β) :
    entries.StoredOn device ↔ ∀ node ∈ entries.nodes, device node.1 = some node.2 := by
  induction entries with
  | nil => simp [StoredOn, nodes]
  | file name inode content rest ih => simp [StoredOn, nodes, ih]
  | dir name inode children rest ihc ihr =>
      rw [StoredOn, nodes, ihc, ihr, List.forall_mem_append, List.forall_mem_cons]
      exact and_left_comm

section

variable [DecidableEq ν]

/-- Open a file of the directory for writing, create or truncate it, and write the content. Nothing
happens if the name is that of a directory. -/
def writeFile (name : ν) (content : β) (fresh : Nat) : Entries ν β → Entries ν β
  | nil => file name fresh content nil
  | file name' inode old rest =>
      if name' = name then file name' inode content rest else file name' inode old (rest.writeFile name content fresh)
  | dir name' inode children rest =>
      if name' = name then dir name' inode children rest
      else dir name' inode children (rest.writeFile name content fresh)

variable {name : ν} {content : β} {fresh : Nat}

theorem inodes_writeFile (name : ν) (content : β) (fresh : Nat) (entries : Entries ν β) :
    (entries.writeFile name content fresh).inodes = entries.inodes ∨
      (entries.writeFile name content fresh).inodes = entries.inodes ++ [fresh] := by
  induction entries with
  | nil => exact .inr rfl
  | file name' inode old rest ih =>
      rw [writeFile]
      split
      · exact .inl rfl
      · rcases ih with hsame | hnew
        · exact .inl (by simp [hsame])
        · exact .inr (by simp [hnew])
  | dir name' inode children rest _ ih =>
      rw [writeFile]
      split
      · exact .inl rfl
      · rcases ih with hsame | hnew
        · exact .inl (by simp [hsame])
        · exact .inr (by simp [hnew])

/-- Writing the same content again changes nothing. -/
theorem writeFile_writeFile (fresh' : Nat) (entries : Entries ν β) :
    (entries.writeFile name content fresh).writeFile name content fresh' = entries.writeFile name content fresh := by
  induction entries with
  | nil => simp [writeFile]
  | file name' inode old rest ih =>
      by_cases hname : name' = name
      · simp [writeFile, hname]
      · simp [writeFile, hname, ih]
  | dir name' inode children rest _ ih =>
      by_cases hname : name' = name
      · simp [writeFile, hname]
      · simp [writeFile, hname, ih]

theorem exists_mem_listing_writeFile (entries : Entries ν β) :
    ∃ inode, (name, inode) ∈ (entries.writeFile name content fresh).listing := by
  induction entries with
  | nil => exact ⟨fresh, by simp [writeFile, listing]⟩
  | file name' inode old rest ih =>
      by_cases hname : name' = name
      · exact ⟨inode, by simp [writeFile, listing, hname]⟩
      · obtain ⟨found, hfound⟩ := ih
        exact ⟨found, by simp [writeFile, listing, hname, hfound]⟩
  | dir name' inode children rest _ ih =>
      by_cases hname : name' = name
      · exact ⟨inode, by simp [writeFile, listing, hname]⟩
      · obtain ⟨found, hfound⟩ := ih
        exact ⟨found, by simp [writeFile, listing, hname, hfound]⟩

end

/-- Whether a name is that of a directory. -/
def isDirectory [DecidableEq ν] (name : ν) : Entries ν β → Bool
  | nil => false
  | file name' _ _ rest => name' ≠ name && rest.isDirectory name
  | dir name' _ _ rest => name' = name || rest.isDirectory name

/-- The removal of one file or of one empty directory, at any depth. -/
inductive Removes : Entries ν β → Entries ν β → Prop where
  | file (name : ν) (inode : Nat) (content : β) (rest : Entries ν β) :
      Removes (.file name inode content rest) rest
  | dir (name : ν) (inode : Nat) (rest : Entries ν β) : Removes (.dir name inode .nil rest) rest
  | inside (name : ν) (inode : Nat) {children children' : Entries ν β} (rest : Entries ν β)
      (h : Removes children children') :
      Removes (.dir name inode children rest) (.dir name inode children' rest)
  | afterFile (name : ν) (inode : Nat) (content : β) {rest rest' : Entries ν β}
      (h : Removes rest rest') :
      Removes (.file name inode content rest) (.file name inode content rest')
  | afterDir (name : ν) (inode : Nat) (children : Entries ν β) {rest rest' : Entries ν β}
      (h : Removes rest rest') :
      Removes (.dir name inode children rest) (.dir name inode children rest')

end Entries

/-! ### Directories -/

/-- A directory with everything below it. No two of its files and directories share an inode. -/
structure Directory (ν β : Type) where
  inode : Nat
  entries : Entries ν β
  distinct : (inode :: entries.inodes).Nodup
deriving DecidableEq

namespace Directory

def nodes (d : Directory ν β) : List (Nat × Node ν β) :=
  (d.inode, .dir d.entries.listing) :: d.entries.nodes

def node (d : Directory ν β) (inode : Nat) : Option (Node ν β) :=
  (d.nodes.find? fun node => node.1 = inode).map Prod.snd

def Contains (d : Directory ν β) (name : ν) : Prop := ∃ inode, (name, inode) ∈ d.entries.listing

/-- A device holds the directory with everything below it. -/
def StoredOn (device : Nat → Option (Node ν β)) (d : Directory ν β) : Prop :=
  device d.inode = some (.dir d.entries.listing) ∧ d.entries.StoredOn device

theorem node_of_mem (d : Directory ν β) {node : Nat × Node ν β} (h : node ∈ d.nodes) :
    d.node node.1 = some node.2 := by
  have hdistinct : (d.nodes.map Prod.fst).Nodup := d.distinct
  have hsome : (d.nodes.find? fun other => other.1 = node.1).isSome = true :=
    List.find?_isSome.mpr ⟨node, h, by simp⟩
  obtain ⟨found, hfound⟩ := Option.isSome_iff_exists.mp hsome
  have hinode : found.1 = node.1 := by simpa using List.find?_some hfound
  rw [Directory.node, hfound,
    List.inj_on_of_nodup_map hdistinct (List.mem_of_find?_eq_some hfound) h hinode]
  rfl

theorem storedOn_iff (device : Nat → Option (Node ν β)) (d : Directory ν β) :
    d.StoredOn device ↔ ∀ node ∈ d.nodes, device node.1 = some node.2 := by
  rw [StoredOn, Entries.storedOn_iff, nodes, List.forall_mem_cons]

/-- An inode that is not in use. -/
def fresh (d : Directory ν β) : Nat := (d.inode :: d.entries.inodes).foldr max 0 + 1

theorem lt_fresh (d : Directory ν β) {inode : Nat} (h : inode ∈ d.inode :: d.entries.inodes) :
    inode < d.fresh := by
  have hle (l : List Nat) (hmem : inode ∈ l) : inode ≤ l.foldr max 0 := by
    induction l with
    | nil => simp at hmem
    | cons i rest ih =>
        rw [List.foldr_cons]
        rcases List.mem_cons.mp hmem with heq | hrest
        · omega
        · have := ih hrest
          omega
  exact Nat.lt_succ_of_le (hle _ h)

variable [DecidableEq ν]

/-- Write a file of the directory. -/
def writeFile (d : Directory ν β) (name : ν) (content : β) : Directory ν β where
  inode := d.inode
  entries := d.entries.writeFile name content d.fresh
  distinct := by
    have hfresh : d.fresh ∉ d.inode :: d.entries.inodes :=
      fun hmem => absurd (d.lt_fresh hmem) (Nat.lt_irrefl _)
    rcases Entries.inodes_writeFile name content d.fresh d.entries with hsame | hnew
    · rw [hsame]
      exact d.distinct
    · rw [hnew, ← List.cons_append]
      apply List.nodup_append.mpr
      refine ⟨d.distinct, by simp, ?_⟩
      intro a ha b hb hab
      obtain rfl : b = d.fresh := by simpa using hb
      exact hfresh (hab ▸ ha)

variable {name : ν} {content : β}

theorem writeFile_writeFile (d : Directory ν β) :
    (d.writeFile name content).writeFile name content = d.writeFile name content := by
  simp [writeFile, Entries.writeFile_writeFile]

theorem contains_writeFile (d : Directory ν β) : (d.writeFile name content).Contains name :=
  Entries.exists_mem_listing_writeFile d.entries

end Directory

/-! ### Volumes -/

/-- A directory as processes see it, and its inodes on the device. What was synced is the same on
both sides. -/
structure Volume (ν β : Type) where
  directory : Directory ν β
  device : Nat → Option (Node ν β)
  synced : List Nat
  valid : ∀ inode ∈ synced, device inode = directory.node inode

namespace Volume

/-- A change of the directory. If it changes anything, nothing counts as synced any more. -/
def modify [DecidableEq ν] [DecidableEq β] (v : Volume ν β) (d : Directory ν β) : Volume ν β :=
  if d = v.directory then v else ⟨d, v.device, [], by simp⟩

def fsync (v : Volume ν β) (inode : Nat) : Volume ν β where
  directory := v.directory
  device := Function.update v.device inode (v.directory.node inode)
  synced := inode :: v.synced
  valid := by
    intro i hi
    by_cases heq : i = inode
    · simp [heq]
    · rw [Function.update_of_ne heq]
      exact v.valid i ((List.mem_cons.mp hi).resolve_left heq)

/-- The device changes what it holds of something that was not synced. -/
def persist (v : Volume ν β) (inode : Nat) (node : Option (Node ν β)) (h : inode ∉ v.synced) :
    Volume ν β where
  directory := v.directory
  device := Function.update v.device inode node
  synced := v.synced
  valid := by
    intro i hi
    have hne : i ≠ inode := by
      intro heq
      exact h (heq ▸ hi)
    rw [Function.update_of_ne hne]
    exact v.valid i hi

@[simp] theorem modify_directory [DecidableEq ν] [DecidableEq β] (v : Volume ν β)
    (d : Directory ν β) :
    (v.modify d).directory = d := by
  unfold modify
  split
  · rename_i heq
    exact heq.symm
  · rfl

theorem modify_self [DecidableEq ν] [DecidableEq β] (v : Volume ν β) : v.modify v.directory = v :=
  if_pos rfl

@[simp] theorem fsync_synced (v : Volume ν β) (inode : Nat) :
    (v.fsync inode).synced = inode :: v.synced := rfl

/-- Everything in the directory was synced. -/
def Synced (v : Volume ν β) : Prop :=
  ∀ inode ∈ v.directory.inode :: v.directory.entries.inodes, inode ∈ v.synced

/-- Then the device holds it. -/
theorem Synced.storedOn {v : Volume ν β} (h : v.Synced) : v.directory.StoredOn v.device := by
  rw [Directory.storedOn_iff]
  intro node hnode
  have hinode : node.1 ∈ v.directory.inode :: v.directory.entries.inodes :=
    List.mem_map.mpr ⟨node, hnode, rfl⟩
  rw [v.valid node.1 (h node.1 hinode)]
  exact v.directory.node_of_mem hnode

end Volume

end DeepJit
