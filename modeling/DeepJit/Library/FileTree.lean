import Mathlib.Data.List.Infix

/-!
# Directory trees with symbolic links

A finite tree of files, directories and symbolic links, the walk that resolves a path in it, and
the removal of an entry with all that is below it. A location is written with its last name first.
-/

universe u v

namespace FileTree

variable {α : Type u} {β : Type v}

/-- One component of a path. -/
inductive Part (α : Type u) where
  | here
  | up
  | entry (name : α)

structure Target (α : Type u) where
  absolute : Bool
  parts : List (Part α)

inductive Node (α : Type u) (β : Type v) where
  | file (content : β)
  | directory
  | link (target : Target α)

abbrev Location (α : Type u) := List α

/-- Where the walk along the target of a link in `dir` starts. -/
def Target.start (target : Target α) (dir : Location α) : Location α :=
  if target.absolute then [] else dir

/-- A tree whose directories list exactly what they hold. -/
structure Tree (α : Type u) (β : Type v) where
  node : Location α → Option (Node α β)
  entries : Location α → List α
  depth : Nat
  node_root : node [] = some .directory
  node_parent : ∀ {name dir}, node (name :: dir) ≠ none → node dir = some .directory
  mem_entries : ∀ {name dir}, name ∈ entries dir ↔ node (name :: dir) ≠ none
  nodup_entries : ∀ dir, (entries dir).Nodup
  length_le : ∀ {loc}, node loc ≠ none → loc.length ≤ depth

namespace Tree

variable (tree : Tree α β)

@[ext] theorem ext {tree other : Tree α β} (hnode : ∀ loc, tree.node loc = other.node loc)
    (hentries : ∀ loc, tree.entries loc = other.entries loc) (hdepth : tree.depth = other.depth) :
    tree = other := by
  obtain ⟨node, entries, depth, _, _, _, _, _⟩ := tree
  obtain ⟨node', entries', depth', _, _, _, _, _⟩ := other
  obtain rfl : node = node' := funext hnode
  obtain rfl : entries = entries' := funext hentries
  obtain rfl : depth = depth' := hdepth
  rfl

def isDirectory (loc : Location α) : Bool :=
  match tree.node loc with
  | some .directory => true
  | _ => false

theorem isDirectory_iff {loc : Location α} : tree.isDirectory loc = true ↔ tree.node loc = some .directory := by
  rw [isDirectory]
  split <;> simp_all

theorem isDirectory_of_entry {name : α} {dir : Location α} (h : tree.node (name :: dir) ≠ none) :
    tree.isDirectory dir = true := tree.isDirectory_iff.mpr (tree.node_parent h)

theorem node_ne_none_of_isDirectory {loc : Location α} (h : tree.isDirectory loc = true) :
    tree.node loc ≠ none := by
  rw [tree.isDirectory_iff.mp h]
  simp

theorem isDirectory_of_entries {loc : Location α} (h : tree.entries loc ≠ []) : tree.isDirectory loc = true := by
  obtain ⟨name, hname⟩ := List.exists_mem_of_ne_nil _ h
  exact tree.isDirectory_of_entry (tree.mem_entries.mp hname)

/-- What holds a node is a directory, at every height. -/
theorem isDirectory_of_suffix {front loc : Location α} (hfront : front ≠ [])
    (h : tree.node (front ++ loc) ≠ none) : tree.isDirectory loc = true := by
  induction front with
  | nil => exact absurd rfl hfront
  | cons name rest ih =>
      have hrest : tree.isDirectory (rest ++ loc) = true := tree.isDirectory_of_entry h
      cases rest with
      | nil => exact hrest
      | cons next rest => exact ih (by simp) (tree.node_ne_none_of_isDirectory hrest)

/-- Nothing is below an entry that is not there. -/
theorem node_eq_none_of_suffix {above loc : Location α} (h : tree.node above = none) (hloc : above <:+ loc) :
    tree.node loc = none := by
  obtain ⟨front, rfl⟩ := hloc
  by_contra hnode
  cases front with
  | nil => exact hnode h
  | cons name rest =>
      exact tree.node_ne_none_of_isDirectory (tree.isDirectory_of_suffix (by simp) hnode) h

theorem entries_eq_nil {loc : Location α} (h : tree.isDirectory loc = false) : tree.entries loc = [] := by
  by_contra hentries
  rw [tree.isDirectory_of_entries hentries] at h
  simp at h

theorem node_start (target : Target α) {dir : Location α} (h : tree.node dir ≠ none) :
    tree.node (target.start dir) ≠ none := by
  rw [Target.start]
  split
  · simp [tree.node_root]
  · exact h

/-! ### Walks -/

/-- The walk from a location along a path, up to the next link, from which `follow` goes on. The
result holds the number of links that may still be followed. -/
def walkWith (follow : Location α → List (Part α) → Option (Location α × Nat)) (budget : Nat) :
    Location α → List (Part α) → Option (Location α × Nat)
  | loc, [] => some (loc, budget)
  | loc, .here :: rest => if tree.isDirectory loc then walkWith follow budget loc rest else none
  | loc, .up :: rest => if tree.isDirectory loc then walkWith follow budget loc.tail rest else none
  | loc, .entry name :: rest =>
      match tree.node (name :: loc) with
      | none => none
      | some (.link target) => follow (target.start loc) (target.parts ++ rest)
      | some _ => walkWith follow budget (name :: loc) rest

/-- The walk that follows at most `budget` links. -/
def walk : Nat → Location α → List (Part α) → Option (Location α × Nat)
  | 0 => tree.walkWith (fun _ _ => none) 0
  | budget + 1 => tree.walkWith (walk budget) (budget + 1)

@[simp] theorem walk_nil (budget : Nat) (loc : Location α) : tree.walk budget loc [] = some (loc, budget) := by
  cases budget <;> rfl

theorem walkWith_append {follow : Location α → List (Part α) → Option (Location α × Nat)} {budget : Nat}
    (rest : List (Part α)) {continue_ : Location α × Nat → Option (Location α × Nat)}
    (hnil : ∀ loc, continue_ (loc, budget) = tree.walkWith follow budget loc rest)
    (hfollow : ∀ loc parts, follow loc (parts ++ rest) = (follow loc parts).bind continue_) :
    ∀ (front : List (Part α)) (loc : Location α), tree.walkWith follow budget loc (front ++ rest) =
      (tree.walkWith follow budget loc front).bind continue_ := by
  intro front
  induction front with
  | nil =>
      intro loc
      exact (hnil loc).symm
  | cons part front ih =>
      intro loc
      cases part with
      | here =>
          simp only [List.cons_append, walkWith]
          split
          · exact ih loc
          · rfl
      | up =>
          simp only [List.cons_append, walkWith]
          split
          · exact ih loc.tail
          · rfl
      | entry name =>
          simp only [List.cons_append, walkWith]
          split
          · rfl
          · rw [← List.append_assoc]
            exact hfollow _ _
          · exact ih (name :: loc)

/-- A walk along two paths, one after the other. -/
theorem walk_append (budget : Nat) (loc : Location α) (front rest : List (Part α)) :
    tree.walk budget loc (front ++ rest) =
      (tree.walk budget loc front).bind fun reached => tree.walk reached.2 reached.1 rest := by
  induction budget generalizing loc front with
  | zero => exact tree.walkWith_append rest (fun _ => rfl) (fun _ _ => rfl) front loc
  | succ budget ih => exact tree.walkWith_append rest (fun _ => rfl) ih front loc

theorem walkWith_invariant {follow : Location α → List (Part α) → Option (Location α × Nat)} {budget bound : Nat}
    (hbudget : budget ≤ bound)
    (hfollow : ∀ loc parts reached, tree.node loc ≠ none → follow loc parts = some reached →
      tree.node reached.1 ≠ none ∧ reached.2 < bound) :
    ∀ (parts : List (Part α)) (loc : Location α) (reached : Location α × Nat), tree.node loc ≠ none →
      tree.walkWith follow budget loc parts = some reached → tree.node reached.1 ≠ none ∧ reached.2 ≤ bound := by
  intro parts
  induction parts with
  | nil =>
      intro loc reached hloc h
      obtain rfl := Option.some.inj h
      exact ⟨hloc, hbudget⟩
  | cons part rest ih =>
      intro loc reached hloc h
      cases part with
      | here =>
          rw [walkWith] at h
          split at h
          · exact ih loc reached hloc h
          · simp at h
      | up =>
          rw [walkWith] at h
          split at h
          · refine ih loc.tail reached ?_ h
            cases loc with
            | nil => exact hloc
            | cons name dir => exact tree.node_ne_none_of_isDirectory (tree.isDirectory_of_entry hloc)
          · simp at h
      | entry name =>
          rw [walkWith] at h
          split at h
          · simp at h
          · rename_i target hlink
            obtain ⟨hreached, hless⟩ := hfollow _ _ reached (tree.node_start target hloc) h
            exact ⟨hreached, by omega⟩
          · rename_i found _ hfound
            exact ih (name :: loc) reached (by simp [hfound]) h

/-- A walk from something that is there leads to something that is there. -/
theorem walk_invariant {budget : Nat} {loc : Location α} {parts : List (Part α)} {reached : Location α × Nat}
    (hloc : tree.node loc ≠ none) (h : tree.walk budget loc parts = some reached) :
    tree.node reached.1 ≠ none ∧ reached.2 ≤ budget := by
  induction budget generalizing loc parts reached with
  | zero =>
      exact tree.walkWith_invariant le_rfl (by simp) parts loc reached hloc h
  | succ budget ih =>
      refine tree.walkWith_invariant le_rfl (fun loc parts reached hloc h => ?_) parts loc reached hloc h
      obtain ⟨hreached, hle⟩ := ih hloc h
      exact ⟨hreached, by omega⟩

theorem walkWith_left {follow : Location α → List (Part α) → Option (Location α × Nat)} {budget : Nat}
    {reached : Location α × Nat}
    (hfollow : ∀ loc parts, follow loc parts = some reached → reached.2 ≤ budget) :
    ∀ (parts : List (Part α)) (loc : Location α), tree.walkWith follow budget loc parts = some reached →
      reached.2 ≤ budget := by
  intro parts
  induction parts with
  | nil =>
      intro loc h
      obtain rfl := Option.some.inj h
      exact le_rfl
  | cons part rest ih =>
      intro loc h
      cases part with
      | here | up =>
          rw [walkWith] at h
          split at h
          · exact ih _ h
          · simp at h
      | entry name =>
          rw [walkWith] at h
          split at h
          · simp at h
          · exact hfollow _ _ h
          · exact ih _ h

/-- A walk does not add to the links that it may follow. -/
theorem walk_left {budget : Nat} {loc : Location α} {parts : List (Part α)} {reached : Location α × Nat}
    (h : tree.walk budget loc parts = some reached) : reached.2 ≤ budget := by
  induction budget generalizing loc parts with
  | zero => exact tree.walkWith_left (by simp) parts loc h
  | succ budget ih => exact tree.walkWith_left (fun _ _ hfollow => (ih hfollow).trans (Nat.le_succ _)) parts loc h

theorem walkWith_succ {follow follow' : Location α → List (Part α) → Option (Location α × Nat)} {budget : Nat}
    {reached : Location α} {left : Nat}
    (hfollow : ∀ loc parts,
      follow' loc parts = some (reached, left + 1) ↔ follow loc parts = some (reached, left)) :
    ∀ (parts : List (Part α)) (loc : Location α),
      tree.walkWith follow' (budget + 1) loc parts = some (reached, left + 1) ↔
        tree.walkWith follow budget loc parts = some (reached, left) := by
  intro parts
  induction parts with
  | nil => simp [walkWith]
  | cons part rest ih =>
      intro loc
      cases part with
      | here | up =>
          simp only [walkWith]
          split
          · exact ih _
          · simp
      | entry name =>
          simp only [walkWith]
          split
          · simp
          · exact hfollow _ _
          · exact ih _

/-- A link that a walk has to spare at the end may be missing from the start. -/
theorem walk_succ {budget : Nat} {loc : Location α} {parts : List (Part α)} {reached : Location α} {left : Nat} :
    tree.walk (budget + 1) loc parts = some (reached, left + 1) ↔
      tree.walk budget loc parts = some (reached, left) := by
  induction budget generalizing loc parts with
  | zero =>
      refine tree.walkWith_succ (fun loc parts => ?_) parts loc
      refine iff_of_false (fun h => ?_) (by simp)
      have hleft := tree.walk_left h
      simp at hleft
  | succ budget ih => exact tree.walkWith_succ (fun loc parts => ih) parts loc

theorem walk_add {budget : Nat} {loc : Location α} {parts : List (Part α)} {reached : Location α} {left : Nat}
    (h : tree.walk budget loc parts = some (reached, left)) (more : Nat) :
    tree.walk (budget + more) loc parts = some (reached, left + more) := by
  induction more with
  | zero => exact h
  | succ more ih => exact tree.walk_succ.mpr ih

/-! ### Paths of names -/

variable (budget : Nat) (base : Location α)

/-- Where a path of names leads from `base`. The last name of the path stands first. -/
def resolve (path : List α) : Option (Location α × Nat) :=
  tree.walk budget base (path.reverse.map .entry)

@[simp] theorem resolve_nil : tree.resolve budget base [] = some (base, budget) := tree.walk_nil budget base

theorem resolve_cons (name : α) (path : List α) :
    tree.resolve budget base (name :: path) =
      (tree.resolve budget base path).bind fun reached => tree.walk reached.2 reached.1 [.entry name] := by
  rw [resolve, List.reverse_cons, List.map_append, walk_append]
  rfl

/-- An entry that is no link is reached without following one. -/
theorem walk_entry {name : α} {dir : Location α} (hnode : tree.node (name :: dir) ≠ none)
    (hlink : ∀ target, tree.node (name :: dir) ≠ some (.link target)) :
    tree.walk budget dir [.entry name] = some (name :: dir, budget) := by
  cases budget with
  | zero =>
      rw [walk, walkWith]
      split <;> simp_all [walkWith]
  | succ budget =>
      rw [walk, walkWith]
      split <;> simp_all [walkWith]

theorem walk_entry_link {name : α} {dir : Location α} {target : Target α}
    (hlink : tree.node (name :: dir) = some (.link target)) {reached : Location α × Nat}
    (h : tree.walk budget dir [.entry name] = some reached) : reached.2 < budget := by
  cases budget with
  | zero =>
      rw [walk, walkWith, hlink] at h
      simp at h
  | succ budget =>
      rw [walk, walkWith, hlink] at h
      have hdir := tree.node_ne_none_of_isDirectory (tree.isDirectory_of_entry (by rw [hlink]; simp))
      have hle := (tree.walk_invariant (tree.node_start target hdir) h).2
      omega

theorem walk_entry_none {name : α} {dir : Location α} (hnode : tree.node (name :: dir) = none) :
    tree.walk budget dir [.entry name] = none := by
  cases budget <;> rw [walk, walkWith, hnode]

/-- A path through directories leads to its own location. -/
theorem resolve_direct {path : List α} (h : tree.isDirectory (path ++ base) = true) :
    tree.resolve budget base path = some (path ++ base, budget) := by
  induction path with
  | nil => exact tree.resolve_nil budget base
  | cons name path ih =>
      have hnode : tree.node (name :: (path ++ base)) = some .directory := tree.isDirectory_iff.mp h
      rw [resolve_cons, ih (tree.isDirectory_of_entry (by rw [hnode]; simp)), Option.bind_some]
      exact tree.walk_entry budget (by rw [hnode]; simp) (by rw [hnode]; simp)

/-- A path through directories, or missing entries, leads to its own location or nowhere. -/
theorem resolve_plain (hbase : tree.isDirectory base = true) {path : List α}
    (hplain : ∀ above, above <:+ path → tree.node (above ++ base) = none ∨
      tree.node (above ++ base) = some .directory) :
    tree.resolve budget base path =
      if tree.isDirectory (path ++ base) then some (path ++ base, budget) else none := by
  induction path with
  | nil => simp [hbase]
  | cons name path ih =>
      rw [resolve_cons, ih fun above habove => hplain above (habove.trans (List.suffix_cons _ _))]
      rcases hplain _ List.suffix_rfl with hnone | hdir
      · have hmissing : ¬ tree.isDirectory (name :: path ++ base) = true := fun hdir =>
          tree.node_ne_none_of_isDirectory hdir hnone
        rw [if_neg hmissing]
        split
        · exact tree.walk_entry_none budget hnone
        · rfl
      · have hnode : tree.node (name :: (path ++ base)) = some .directory := hdir
        rw [if_pos (tree.isDirectory_of_entry (by rw [hnode]; simp)), Option.bind_some,
          if_pos (tree.isDirectory_iff.mpr hdir)]
        exact tree.walk_entry budget (by simp [hnode]) (by simp [hnode])

/-- From nowhere a path leads nowhere. -/
theorem resolve_eq_none (hbase : tree.node base = none) {path : List α} (hpath : path ≠ []) :
    tree.resolve budget base path = none := by
  induction path with
  | nil => exact absurd rfl hpath
  | cons name path ih =>
      rw [resolve_cons]
      by_cases hempty : path = []
      · rw [hempty, resolve_nil, Option.bind_some]
        exact tree.walk_entry_none budget (tree.node_eq_none_of_suffix hbase (List.suffix_cons _ _))
      · rw [ih hempty, Option.bind_none]

/-- A path that leads somewhere has not more names than the links it may follow and the depth of the
tree allow. -/
theorem resolve_length (hbase : tree.node base ≠ none) {path : List α} {reached : Location α × Nat}
    (h : tree.resolve budget base path = some reached) :
    tree.node reached.1 ≠ none ∧ reached.2 ≤ budget ∧
      path.length + reached.2 * (tree.depth + 1) ≤ budget * (tree.depth + 1) + reached.1.length := by
  induction path generalizing reached with
  | nil =>
      obtain rfl := Option.some.inj ((tree.resolve_nil budget base).symm.trans h)
      exact ⟨hbase, le_rfl, by simp⟩
  | cons name path ih =>
      rw [resolve_cons] at h
      obtain ⟨dir, hdir, hentry⟩ := Option.bind_eq_some_iff.mp h
      obtain ⟨hnode, hle, hlength⟩ := ih hdir
      obtain ⟨hreached, hleft⟩ := tree.walk_invariant hnode hentry
      refine ⟨hreached, by omega, ?_⟩
      rw [List.length_cons]
      cases hfound : tree.node (name :: dir.1) with
      | none =>
          rw [tree.walk_entry_none dir.2 hfound] at hentry
          simp at hentry
      | some found =>
          by_cases hlink : ∃ target, found = .link target
          · obtain ⟨target, rfl⟩ := hlink
            have hless := tree.walk_entry_link dir.2 hfound hentry
            have hdepth := tree.length_le hnode
            have hmul : (reached.2 + 1) * (tree.depth + 1) ≤ dir.2 * (tree.depth + 1) :=
              Nat.mul_le_mul_right _ hless
            rw [Nat.add_mul, Nat.one_mul] at hmul
            omega
          · rw [tree.walk_entry dir.2 (by simp [hfound]) (by
              intro target htarget
              exact hlink ⟨target, Option.some.inj (hfound.symm.trans htarget)⟩)] at hentry
            obtain rfl := Option.some.inj hentry
            show path.length + 1 + dir.2 * (tree.depth + 1) ≤ budget * (tree.depth + 1) + (dir.1.length + 1)
            omega

/-! ### Removal -/

section

variable [DecidableEq α]

/-- The tree without an entry and everything below it. -/
def prune (name : α) (dir : Location α) : Tree α β where
  node loc := if name :: dir <:+ loc then none else tree.node loc
  entries loc :=
    if name :: dir <:+ loc then [] else if loc = dir then (tree.entries loc).filter (· ≠ name) else tree.entries loc
  depth := tree.depth
  node_root := by
    rw [if_neg (by simp), tree.node_root]
  node_parent := by
    intro name' dir' h
    split at h
    · exact absurd rfl h
    · rename_i hout
      rw [if_neg (fun hin => hout (hin.trans (List.suffix_cons _ _)))]
      exact tree.node_parent h
  mem_entries := by
    intro name' dir'
    by_cases hin : name :: dir <:+ dir'
    · rw [if_pos hin, if_pos (hin.trans (List.suffix_cons _ _))]
      simp
    · rw [if_neg hin]
      by_cases hdir : dir' = dir
      · subst hdir
        rw [if_pos rfl, List.mem_filter, tree.mem_entries]
        by_cases hname : name' = name
        · subst hname
          simp
        · rw [if_neg (fun h => hname (by simpa [List.suffix_cons_iff, hin, eq_comm] using h))]
          simp [hname]
      · rw [if_neg hdir, tree.mem_entries, if_neg]
        intro h
        rw [List.suffix_cons_iff] at h
        rcases h with h | h
        · exact hdir (List.cons.inj h).2.symm
        · exact hin h
  nodup_entries := by
    intro dir'
    split
    · exact List.nodup_nil
    · split
      · exact (tree.nodup_entries dir').filter _
      · exact tree.nodup_entries dir'
  length_le := by
    intro loc h
    split at h
    · exact absurd rfl h
    · exact tree.length_le h

theorem node_prune (name : α) (dir loc : Location α) :
    (tree.prune name dir).node loc = if name :: dir <:+ loc then none else tree.node loc := rfl

theorem entries_prune (name : α) (dir loc : Location α) : (tree.prune name dir).entries loc =
    if name :: dir <:+ loc then []
    else if loc = dir then (tree.entries loc).filter (· ≠ name) else tree.entries loc := rfl

theorem prune_of_missing {name : α} {dir : Location α} (h : tree.node (name :: dir) = none) :
    tree.prune name dir = tree := by
  ext1
  · rename_i loc
    rw [node_prune]
    split
    · rename_i hloc
      exact (tree.node_eq_none_of_suffix h hloc).symm
    · rfl
  · rename_i loc
    rw [entries_prune]
    split
    · rename_i hloc
      rw [tree.entries_eq_nil]
      rw [isDirectory, tree.node_eq_none_of_suffix h hloc]
    · split
      · rename_i hdir
        subst hdir
        refine List.filter_eq_self.mpr fun other hother => ?_
        rw [decide_eq_true_eq]
        rintro rfl
        exact tree.mem_entries.mp hother h
      · rfl
  · rfl

/-- An entry with nothing below it is removed alone. -/
theorem eq_of_node_prune_ne {name : α} {dir loc : Location α} (hentries : tree.entries (name :: dir) = [])
    (h : (tree.prune name dir).node loc ≠ tree.node loc) : loc = name :: dir := by
  rw [node_prune] at h
  split at h
  · rename_i hloc
    obtain ⟨front, rfl⟩ := hloc
    rcases front.eq_nil_or_concat with rfl | ⟨rest, next, rfl⟩
    · rfl
    · have hnext : tree.node (next :: name :: dir) ≠ none := fun hnone =>
        h (tree.node_eq_none_of_suffix hnone ⟨rest, by simp⟩).symm
      have hmem : next ∈ tree.entries (name :: dir) := tree.mem_entries.mpr hnext
      rw [hentries] at hmem
      exact absurd hmem List.not_mem_nil
  · exact absurd rfl h

/-- Removing an entry removes what was already removed below it. -/
theorem prune_prune {name name' : α} {dir dir' : Location α} (h : name :: dir <:+ dir') :
    (tree.prune name' dir').prune name dir = tree.prune name dir := by
  have hin : ∀ {loc}, name' :: dir' <:+ loc → name :: dir <:+ loc := fun hloc =>
    (h.trans (List.suffix_cons _ _)).trans hloc
  ext1
  · rename_i loc
    simp only [node_prune]
    split
    · rfl
    · rename_i hout
      rw [if_neg fun hloc => hout (hin hloc)]
  · rename_i loc
    simp only [entries_prune]
    split
    · rfl
    · rename_i hout
      have hdir : loc ≠ dir' := fun heq => hout (heq ▸ h)
      rw [if_neg fun hloc => hout (hin hloc), if_neg hdir]
  · rfl

/-- The tree without some entries of a directory. -/
def pruneAll (dir : Location α) (names : List α) : Tree α β :=
  names.foldl (fun tree name => tree.prune name dir) tree

@[simp] theorem pruneAll_nil (dir : Location α) : tree.pruneAll dir [] = tree := rfl

theorem pruneAll_concat (dir : Location α) (names : List α) (name : α) :
    tree.pruneAll dir (names ++ [name]) = (tree.pruneAll dir names).prune name dir := by
  rw [pruneAll, List.foldl_append]
  rfl

theorem prune_pruneAll {name : α} {dir dir' : Location α} (h : name :: dir <:+ dir') (names : List α) :
    (tree.pruneAll dir' names).prune name dir = tree.prune name dir := by
  induction names using List.reverseRecOn with
  | nil => rfl
  | append_singleton names last ih => rw [pruneAll_concat, prune_prune _ h, ih]

theorem node_pruneAll (dir loc : Location α) (names : List α) : (tree.pruneAll dir names).node loc =
    if ∃ name ∈ names, name :: dir <:+ loc then none else tree.node loc := by
  induction names using List.reverseRecOn with
  | nil => simp
  | append_singleton names last ih =>
      rw [pruneAll_concat, node_prune, ih]
      by_cases hlast : last :: dir <:+ loc
      · rw [if_pos hlast, if_pos ⟨last, by simp, hlast⟩]
      · rw [if_neg hlast]
        congr 1
        simp [or_and_right, exists_or, hlast]

theorem depth_pruneAll (dir : Location α) (names : List α) : (tree.pruneAll dir names).depth = tree.depth := by
  induction names using List.reverseRecOn with
  | nil => rfl
  | append_singleton names last ih =>
      rw [pruneAll_concat]
      exact ih

/-- What is not below the directory stays. -/
theorem node_pruneAll_self (dir : Location α) (names : List α) :
    (tree.pruneAll dir names).node dir = tree.node dir := by
  rw [node_pruneAll, if_neg]
  rintro ⟨name, -, h⟩
  have := h.length_le
  rw [List.length_cons] at this
  omega

theorem entries_pruneAll_self (dir : Location α) (names : List α) :
    (tree.pruneAll dir names).entries dir = (tree.entries dir).filter (· ∉ names) := by
  induction names using List.reverseRecOn with
  | nil => simp
  | append_singleton names last ih =>
      rw [pruneAll_concat, entries_prune, if_neg, if_pos rfl, ih, List.filter_filter]
      · congr 1
        funext name
        simp [not_or, and_comm]
      · intro h
        have := h.length_le
        rw [List.length_cons] at this
        omega

end

/-! ### Creation -/

section

variable [DecidableEq α]

/-- The tree of an empty root. -/
def root : Tree α β where
  node loc := if loc = [] then some .directory else none
  entries _ := []
  depth := 0
  node_root := rfl
  node_parent := by simp
  mem_entries := by simp
  nodup_entries := by simp
  length_le := by
    intro loc h
    cases loc with
    | nil => exact Nat.zero_le _
    | cons name dir => simp at h

omit [DecidableEq α] in
theorem isDirectory_root : (root : Tree α β).isDirectory [] = true := rfl

/-- The tree with a new entry, which is the last in its directory. -/
def create (name : α) (dir : Location α) (node : Node α β) (hdir : tree.isDirectory dir = true)
    (hnew : (tree.node (name :: dir)).isNone = true) : Tree α β where
  node loc := if loc = name :: dir then some node else tree.node loc
  entries loc := if loc = dir then tree.entries loc ++ [name] else tree.entries loc
  depth := max tree.depth (dir.length + 1)
  node_root := by
    rw [if_neg (by simp), tree.node_root]
  node_parent := by
    intro name' dir' h
    have hparent : tree.node dir' = some .directory := by
      split at h
      · rename_i heq
        rw [(List.cons.inj heq).2]
        exact tree.isDirectory_iff.mp hdir
      · exact tree.node_parent h
    rw [if_neg]
    · exact hparent
    · intro heq
      rw [heq, Option.isNone_iff_eq_none.mp hnew] at hparent
      simp at hparent
  mem_entries := by
    intro name' dir'
    by_cases hdir' : dir' = dir
    · subst hdir'
      by_cases hname : name' = name
      · simp [hname]
      · simp [hname, tree.mem_entries]
    · simp [hdir', tree.mem_entries]
  nodup_entries := by
    intro dir'
    split
    · rename_i heq
      subst heq
      refine List.nodup_append.mpr ⟨tree.nodup_entries _, by simp, fun entry hentry other hother => ?_⟩
      rintro rfl
      rw [List.mem_singleton.mp hother] at hentry
      exact tree.mem_entries.mp hentry (Option.isNone_iff_eq_none.mp hnew)
    · exact tree.nodup_entries dir'
  length_le := by
    intro loc h
    split at h
    · rename_i heq
      rw [heq, List.length_cons]
      exact le_max_right _ _
    · exact (tree.length_le h).trans (le_max_left _ _)

end

end Tree

end FileTree
