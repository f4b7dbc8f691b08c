import DeepJit.Basic
import DeepJit.Library.FileTree

/-!
# Removal of a directory tree

`safe_remove_all` as the source computes it. Its tests follow symbolic links and its removals do
not. Every path is resolved again at each use, from the real location `base` of the directory that
holds the tree, along at most `budget` links.
-/

namespace DeepJit

open FileTree (Tree Location Target)

/-- An entry that was removed: the path that was given for it and where that led. -/
structure Removal where
  path : List Bytes
  location : Location Bytes

structure Filesystem where
  tree : Tree Bytes Bytes
  removed : List Removal

variable (budget : Nat) (base : Location Bytes)

/-- `std::filesystem::remove`: `unlink`, or `rmdir` for a directory, which fails unless it is
empty. The last name of the path is not followed. -/
def Filesystem.remove (fs : Filesystem) : List Bytes → Filesystem
  | [] => fs
  | name :: parent =>
      match fs.tree.resolve budget base parent with
      | none => fs
      | some (dir, _) =>
          if (fs.tree.node (name :: dir)).isSome ∧ fs.tree.entries (name :: dir) = [] then
            { tree := fs.tree.prune name dir
              removed := fs.removed ++ [⟨name :: parent, name :: dir⟩] }
          else fs

/-- `safe_remove_all`. The entries of a directory are the ones that it has when it is opened. -/
def safeRemoveAll : Nat → Filesystem → List Bytes → Option Filesystem
  | fuel, fs, path =>
      match fs.tree.resolve budget base path with
      | none => some fs
      | some (loc, _) =>
          if fs.tree.isDirectory loc then
            match fuel with
            | 0 => none
            | fuel + 1 => do
                let fs ← (fs.tree.entries loc).foldlM (fun fs name => safeRemoveAll fuel fs (name :: path)) fs
                some (fs.remove budget base path)
          else some (fs.remove budget base path)

/-- The recursion is never deeper. -/
def removalDepth (tree : Tree Bytes Bytes) : Nat := (budget + 1) * (tree.depth + 1)

/-- The entries of a directory, one after the other. -/
def removeEntries (fuel : Nat) (path names : List Bytes) (fs : Filesystem) : Option Filesystem :=
  names.foldlM (fun fs name => safeRemoveAll budget base fuel fs (name :: path)) fs

section

variable {budget base} {fuel : Nat} {fs after : Filesystem} {path : List Bytes}

theorem removeEntries_cons {name : Bytes} {names : List Bytes} :
    removeEntries budget base fuel path (name :: names) fs =
      (safeRemoveAll budget base fuel fs (name :: path)).bind
        (removeEntries budget base fuel path names) := rfl

/-- What is not there, or is a link that leads nowhere, is left as it is. -/
theorem safeRemoveAll_missing (h : fs.tree.resolve budget base path = none) :
    safeRemoveAll budget base fuel fs path = some fs := by
  rw [safeRemoveAll, h]

theorem safeRemoveAll_file {loc : Location Bytes} {left : Nat}
    (h : fs.tree.resolve budget base path = some (loc, left)) (hloc : fs.tree.isDirectory loc = false) :
    safeRemoveAll budget base fuel fs path = some (fs.remove budget base path) := by
  rw [safeRemoveAll, h]
  simp [hloc]

theorem safeRemoveAll_directory {loc : Location Bytes} {left : Nat}
    (h : fs.tree.resolve budget base path = some (loc, left)) (hloc : fs.tree.isDirectory loc = true) :
    safeRemoveAll budget base (fuel + 1) fs path =
      (removeEntries budget base fuel path (fs.tree.entries loc) fs).map fun fs => fs.remove budget base path := by
  rw [safeRemoveAll, h]
  simp only [hloc, if_true]
  rw [Option.map_eq_bind]
  rfl

/-- A call that opens a directory. -/
theorem safeRemoveAll_opened {loc : Location Bytes} {left : Nat}
    (hresolve : fs.tree.resolve budget base path = some (loc, left)) (hloc : fs.tree.isDirectory loc = true)
    (h : safeRemoveAll budget base fuel fs path = some after) :
    ∃ less emptied, fuel = less + 1 ∧
      removeEntries budget base less path (fs.tree.entries loc) fs = some emptied ∧
      after = emptied.remove budget base path := by
  cases fuel with
  | zero =>
      rw [safeRemoveAll, hresolve] at h
      simp [hloc] at h
  | succ less =>
      rw [safeRemoveAll_directory hresolve hloc] at h
      obtain ⟨emptied, hemptied, rfl⟩ := Option.map_eq_some_iff.mp h
      exact ⟨less, emptied, rfl, hemptied, rfl⟩

/-- The three ways in which a call returns. -/
theorem safeRemoveAll_cases (h : safeRemoveAll budget base fuel fs path = some after) :
    (fs.tree.resolve budget base path = none ∧ after = fs) ∨
      ∃ loc left, fs.tree.resolve budget base path = some (loc, left) ∧
        ((fs.tree.isDirectory loc = false ∧ after = fs.remove budget base path) ∨
          fs.tree.isDirectory loc = true ∧ ∃ less emptied, fuel = less + 1 ∧
            removeEntries budget base less path (fs.tree.entries loc) fs = some emptied ∧
            after = emptied.remove budget base path) := by
  cases hresolve : fs.tree.resolve budget base path with
  | none =>
      rw [safeRemoveAll_missing hresolve] at h
      exact .inl ⟨rfl, (Option.some.inj h).symm⟩
  | some reached =>
      obtain ⟨loc, left⟩ := reached
      refine .inr ⟨loc, left, rfl, ?_⟩
      cases hloc : fs.tree.isDirectory loc with
      | false =>
          rw [safeRemoveAll_file hresolve hloc] at h
          exact .inl ⟨rfl, (Option.some.inj h).symm⟩
      | true => exact .inr ⟨rfl, safeRemoveAll_opened hresolve hloc h⟩

/-! ### What a call changes -/

/-- From `fs` to `after`, entries were removed by paths that start with `path`, and nothing else
happened to the tree. -/
structure Removes (path : List Bytes) (fs after : Filesystem) : Prop where
  removed : fs.removed <+: after.removed
  changed : ∀ loc, after.tree.node loc ≠ fs.tree.node loc →
    ∃ removal ∈ after.removed, path <:+ removal.path ∧ removal.location = loc
  depth : after.tree.depth = fs.tree.depth

theorem Removes.refl (path : List Bytes) (fs : Filesystem) : Removes path fs fs where
  removed := List.prefix_rfl
  changed := fun _ h => absurd rfl h
  depth := rfl

theorem Removes.trans {middle : Filesystem} (h : Removes path fs middle) (h' : Removes path middle after) :
    Removes path fs after where
  removed := h.removed.trans h'.removed
  changed := by
    intro loc hloc
    by_cases hmiddle : after.tree.node loc = middle.tree.node loc
    · obtain ⟨removal, hmem, hremoval⟩ := h.changed loc (hmiddle ▸ hloc)
      exact ⟨removal, h'.removed.subset hmem, hremoval⟩
    · exact h'.changed loc hmiddle
  depth := h'.depth.trans h.depth

theorem Removes.of_suffix {path' : List Bytes} (hpath : path <:+ path') (h : Removes path' fs after) :
    Removes path fs after where
  removed := h.removed
  changed := by
    intro loc hloc
    obtain ⟨removal, hmem, hsuffix, hlocation⟩ := h.changed loc hloc
    exact ⟨removal, hmem, hpath.trans hsuffix, hlocation⟩
  depth := h.depth

variable (budget base) in
theorem removes_remove (fs : Filesystem) (path : List Bytes) : Removes path fs (fs.remove budget base path) := by
  cases path with
  | nil => exact Removes.refl [] fs
  | cons name parent =>
      rw [Filesystem.remove]
      split
      · exact Removes.refl _ fs
      · split
        · rename_i dir _ _ hentry
          refine ⟨List.prefix_append _ _, fun loc hloc => ?_, rfl⟩
          exact ⟨_, List.mem_append_right _ (List.mem_singleton_self _), List.suffix_rfl,
            (fs.tree.eq_of_node_prune_ne hentry.2 hloc).symm⟩
        · exact Removes.refl _ fs

theorem removes_removeEntries_of
    (hcall : ∀ fs path after, safeRemoveAll budget base fuel fs path = some after → Removes path fs after)
    {names : List Bytes} (h : removeEntries budget base fuel path names fs = some after) : Removes path fs after := by
  induction names generalizing fs with
  | nil =>
      obtain rfl := Option.some.inj h
      exact Removes.refl path fs
  | cons name names ih =>
      rw [removeEntries_cons] at h
      obtain ⟨middle, hmiddle, hrest⟩ := Option.bind_eq_some_iff.mp h
      exact ((hcall fs _ middle hmiddle).of_suffix (List.suffix_cons _ _)).trans (ih hrest)

theorem removes_safeRemoveAll (h : safeRemoveAll budget base fuel fs path = some after) : Removes path fs after := by
  induction fuel generalizing fs path after with
  | zero =>
      rcases safeRemoveAll_cases h with ⟨-, rfl⟩ | ⟨_, _, -, ⟨-, rfl⟩ | ⟨-, _, _, hfuel, -⟩⟩
      · exact Removes.refl path after
      · exact removes_remove budget base fs path
      · omega
  | succ fuel ih =>
      rcases safeRemoveAll_cases h with ⟨-, rfl⟩ | ⟨_, _, -, ⟨-, rfl⟩ | ⟨-, less, emptied, hfuel, hemptied, rfl⟩⟩
      · exact Removes.refl path after
      · exact removes_remove budget base fs path
      · obtain rfl : fuel = less := by omega
        exact (removes_removeEntries_of (fun _ _ _ => ih) hemptied).trans (removes_remove budget base emptied path)

theorem removes_removeEntries {names : List Bytes}
    (h : removeEntries budget base fuel path names fs = some after) : Removes path fs after :=
  removes_removeEntries_of (fun _ _ _ => removes_safeRemoveAll) h

/-! ### Termination -/

theorem removeEntries_returns
    (hcall : ∀ fs name, removalDepth budget fs.tree ≤ fuel + (name :: path).length →
      ∃ after, safeRemoveAll budget base fuel fs (name :: path) = some after)
    (names : List Bytes) (hfuel : removalDepth budget fs.tree ≤ fuel + (path.length + 1)) :
    ∃ after, removeEntries budget base fuel path names fs = some after := by
  induction names generalizing fs with
  | nil => exact ⟨fs, rfl⟩
  | cons name names ih =>
      obtain ⟨middle, hmiddle⟩ := hcall fs name hfuel
      rw [removeEntries_cons, hmiddle, Option.bind_some]
      apply ih
      rw [removalDepth, (removes_safeRemoveAll hmiddle).depth]
      exact hfuel

/-- The recursion ends: a path that still leads somewhere is not longer than the tree and the links
allow. -/
theorem safeRemoveAll_returns (fuel : Nat) (fs : Filesystem) (path : List Bytes) (hpath : path ≠ [])
    (hfuel : removalDepth budget fs.tree ≤ fuel + path.length) :
    ∃ after, safeRemoveAll budget base fuel fs path = some after := by
  induction fuel generalizing fs path with
  | zero =>
      cases hresolve : fs.tree.resolve budget base path with
      | none => exact ⟨fs, safeRemoveAll_missing hresolve⟩
      | some reached =>
          have hbase : fs.tree.node base ≠ none := fun hnone => by
            rw [fs.tree.resolve_eq_none budget base hnone hpath] at hresolve
            simp at hresolve
          obtain ⟨hnode, hleft, hlength⟩ := fs.tree.resolve_length budget base hbase hresolve
          have hdepth := fs.tree.length_le hnode
          rw [removalDepth, Nat.add_mul] at hfuel
          omega
  | succ fuel ih =>
      cases hresolve : fs.tree.resolve budget base path with
      | none => exact ⟨fs, safeRemoveAll_missing hresolve⟩
      | some reached =>
          cases hloc : fs.tree.isDirectory reached.1 with
          | false => exact ⟨_, safeRemoveAll_file hresolve hloc⟩
          | true =>
              have hless : removalDepth budget fs.tree ≤ fuel + (path.length + 1) := by omega
              obtain ⟨emptied, hemptied⟩ := removeEntries_returns
                (fun fs name => ih fs (name :: path) (by simp)) (fs.tree.entries reached.1) hless
              rw [safeRemoveAll_directory hresolve hloc, hemptied]
              exact ⟨_, rfl⟩

end

end DeepJit
