import DeepJit.Library.FileTree
import Mathlib.Data.List.DropRight

/-!
# Updates of directory trees

Opening a file for writing, which follows links and may create the file, writing to it, and moving a
directory with all that is below it. A tree that only gains entries keeps every walk.
-/

universe u v

namespace FileTree

variable {α : Type u} {β : Type v}

/-- What a walk sees of an entry. -/
def Node.shape : Node α β → Node α Unit
  | .file _ => .file ()
  | .directory => .directory
  | .link target => .link target

namespace Tree

variable (tree : Tree α β)

def isFile (loc : Location α) : Bool :=
  match tree.node loc with
  | some (.file _) => true
  | _ => false

theorem isFile_iff {loc : Location α} :
    tree.isFile loc = true ↔ ∃ content, tree.node loc = some (.file content) := by
  rw [isFile]
  split <;> simp_all

/-! ### Trees that gain entries -/

/-- Everything that is in the tree is in the other one, with any contents of files. -/
def Extends (tree tree' : Tree α β) : Prop :=
  ∀ loc node, tree.node loc = some node → ∃ node', tree'.node loc = some node' ∧ node'.shape = node.shape

variable {tree} {tree' tree'' : Tree α β}

theorem Extends.refl (tree : Tree α β) : tree.Extends tree := fun _ node h => ⟨node, h, rfl⟩

theorem Extends.trans (h : tree.Extends tree') (h' : tree'.Extends tree'') : tree.Extends tree'' := by
  intro loc node hnode
  obtain ⟨node', hnode', hshape⟩ := h loc node hnode
  obtain ⟨node'', hnode'', hshape'⟩ := h' loc node' hnode'
  exact ⟨node'', hnode'', hshape'.trans hshape⟩

theorem Extends.isDirectory (h : tree.Extends tree') {loc : Location α} (hloc : tree.isDirectory loc = true) :
    tree'.isDirectory loc = true := by
  obtain ⟨node', hnode', hshape⟩ := h loc _ (tree.isDirectory_iff.mp hloc)
  rw [isDirectory_iff, hnode']
  cases node' <;> simp_all [Node.shape]

theorem Extends.link (h : tree.Extends tree') {loc : Location α} {target : Target α}
    (hloc : tree.node loc = some (.link target)) : tree'.node loc = some (.link target) := by
  obtain ⟨node', hnode', hshape⟩ := h loc _ hloc
  rw [hnode']
  cases node' <;> simp_all [Node.shape]

theorem Extends.isFile (h : tree.Extends tree') {loc : Location α} (hloc : tree.isFile loc = true) :
    tree'.isFile loc = true := by
  obtain ⟨content, hcontent⟩ := tree.isFile_iff.mp hloc
  obtain ⟨node', hnode', hshape⟩ := h loc _ hcontent
  rw [Tree.isFile, hnode']
  cases node' <;> simp_all [Node.shape]

theorem Extends.node_ne_none (h : tree.Extends tree') {loc : Location α} (hloc : tree.node loc ≠ none) :
    tree'.node loc ≠ none := by
  obtain ⟨node, hnode⟩ := Option.ne_none_iff_exists'.mp hloc
  obtain ⟨node', hnode', -⟩ := h loc node hnode
  simp [hnode']

theorem Extends.walkWith (h : tree.Extends tree')
    {follow follow' : Location α → List (Part α) → Option (Location α × Nat)}
    (hfollow : ∀ loc parts reached, follow loc parts = some reached → follow' loc parts = some reached)
    {budget : Nat} {reached : Location α × Nat} :
    ∀ (parts : List (Part α)) (loc : Location α), tree.walkWith follow budget loc parts = some reached →
      tree'.walkWith follow' budget loc parts = some reached := by
  intro parts
  induction parts with
  | nil => exact fun _ hwalk => hwalk
  | cons part rest ih =>
      intro loc hwalk
      cases part with
      | here | up =>
          rw [Tree.walkWith] at hwalk ⊢
          split at hwalk
          · rename_i hloc
            rw [if_pos (h.isDirectory hloc)]
            exact ih _ hwalk
          · simp at hwalk
      | entry name =>
          rw [Tree.walkWith] at hwalk
          split at hwalk
          · simp at hwalk
          · rename_i target hlink
            rw [Tree.walkWith, h.link hlink]
            exact hfollow _ _ _ hwalk
          · rename_i node hnot hnode
            obtain ⟨node', hnode', hshape⟩ := h _ _ hnode
            rw [Tree.walkWith, hnode']
            cases node' with
            | link target => cases node <;> simp_all [Node.shape]
            | file | directory => exact ih _ hwalk

theorem Extends.walk (h : tree.Extends tree') {budget : Nat} {loc : Location α} {parts : List (Part α)}
    {reached : Location α × Nat} (hwalk : tree.walk budget loc parts = some reached) :
    tree'.walk budget loc parts = some reached := by
  induction budget generalizing loc parts reached with
  | zero => exact h.walkWith (by simp) parts loc hwalk
  | succ budget ih => exact h.walkWith (fun _ _ _ => ih) parts loc hwalk

theorem Extends.resolve (h : tree.Extends tree') {budget : Nat} {base : Location α} {path : List α}
    {reached : Location α × Nat} (hresolve : tree.resolve budget base path = some reached) :
    tree'.resolve budget base path = some reached := h.walk hresolve

/-! ### Opening for writing -/

variable (tree)

/-- The file that a path opens for writing, up to the next link, from which `follow` goes on. The
last name of the path may be missing. -/
def openWith (follow : Location α → List (Part α) → Option (Location α)) :
    Location α → List (Part α) → Option (Location α)
  | _, [] => none
  | loc, .here :: rest => if tree.isDirectory loc then openWith follow loc rest else none
  | loc, .up :: rest => if tree.isDirectory loc then openWith follow loc.tail rest else none
  | loc, .entry name :: rest =>
      match tree.node (name :: loc) with
      | none => if rest.isEmpty && tree.isDirectory loc then some (name :: loc) else none
      | some (.link target) => follow (target.start loc) (target.parts ++ rest)
      | some (.file _) => if rest.isEmpty then some (name :: loc) else none
      | some .directory => openWith follow (name :: loc) rest

/-- The same with at most `budget` links. -/
def opened : Nat → Location α → List (Part α) → Option (Location α)
  | 0 => tree.openWith fun _ _ => none
  | budget + 1 => tree.openWith (opened budget)

variable {tree}

/-- What is opened is a file, or missing in a directory that is there. -/
def Openable (tree : Tree α β) (loc : Location α) : Prop :=
  tree.isFile loc = true ∨ tree.node loc = none ∧ ∃ name dir, loc = name :: dir ∧ tree.isDirectory dir = true

theorem openable_openWith {follow : Location α → List (Part α) → Option (Location α)} {opened : Location α}
    (hfollow : ∀ loc parts, follow loc parts = some opened → tree.Openable opened) :
    ∀ (parts : List (Part α)) (loc : Location α), tree.openWith follow loc parts = some opened →
      tree.Openable opened := by
  intro parts
  induction parts with
  | nil => simp [openWith]
  | cons part rest ih =>
      intro loc h
      cases part with
      | here | up =>
          rw [openWith] at h
          split at h
          · exact ih _ h
          · simp at h
      | entry name =>
          rw [openWith] at h
          split at h
          · rename_i hnone
            split at h
            · rename_i hlast
              obtain rfl := Option.some.inj h
              rw [Bool.and_eq_true] at hlast
              exact .inr ⟨hnone, name, loc, rfl, hlast.2⟩
            · simp at h
          · exact hfollow _ _ h
          · rename_i content hfile
            split at h
            · obtain rfl := Option.some.inj h
              exact .inl (tree.isFile_iff.mpr ⟨content, hfile⟩)
            · simp at h
          · exact ih _ h

theorem openable_of_opened {budget : Nat} {loc opened : Location α} {parts : List (Part α)}
    (h : tree.opened budget loc parts = some opened) : tree.Openable opened := by
  induction budget generalizing loc parts with
  | zero => exact openable_openWith (by simp) parts loc h
  | succ budget ih => exact openable_openWith (fun _ _ => ih) parts loc h

theorem walkWith_of_openWith (hext : tree.Extends tree') {opened : Location α} (hfile : tree'.isFile opened = true)
    {follow : Location α → List (Part α) → Option (Location α)}
    {follow' : Location α → List (Part α) → Option (Location α × Nat)}
    (hfollow : ∀ loc parts, follow loc parts = some opened → ∃ left, follow' loc parts = some (opened, left))
    {budget : Nat} :
    ∀ (parts : List (Part α)) (loc : Location α), tree.openWith follow loc parts = some opened →
      ∃ left, tree'.walkWith follow' budget loc parts = some (opened, left) := by
  obtain ⟨content, hcontent⟩ := tree'.isFile_iff.mp hfile
  intro parts
  induction parts with
  | nil => simp [openWith]
  | cons part rest ih =>
      intro loc h
      have hlast (name : α) (hrest : rest.isEmpty = true) (hopened : name :: loc = opened) :
          ∃ left, tree'.walkWith follow' budget loc (.entry name :: rest) = some (opened, left) := by
        rw [← hopened] at hcontent
        rw [List.isEmpty_iff.mp hrest, Tree.walkWith, hcontent]
        exact ⟨budget, by simp [Tree.walkWith, hopened]⟩
      cases part with
      | here | up =>
          rw [openWith] at h
          split at h
          · rename_i hloc
            rw [Tree.walkWith, if_pos (hext.isDirectory hloc)]
            exact ih _ h
          · simp at h
      | entry name =>
          rw [openWith] at h
          split at h
          · split at h
            · rename_i hfront
              rw [Bool.and_eq_true] at hfront
              exact hlast name hfront.1 (Option.some.inj h)
            · simp at h
          · rename_i target hlink
            rw [Tree.walkWith, hext.link hlink]
            exact hfollow _ _ h
          · split at h
            · rename_i hrest
              exact hlast name hrest (Option.some.inj h)
            · simp at h
          · rename_i hdir
            have hdir' : tree'.node (name :: loc) = some .directory :=
              tree'.isDirectory_iff.mp (hext.isDirectory (tree.isDirectory_iff.mpr hdir))
            rw [Tree.walkWith, hdir']
            exact ih _ h

/-- Once the file is there, the path leads to it. -/
theorem walk_of_opened (hext : tree.Extends tree') {budget : Nat} {loc opened : Location α} {parts : List (Part α)}
    (h : tree.opened budget loc parts = some opened) (hfile : tree'.isFile opened = true) :
    ∃ left, tree'.walk budget loc parts = some (opened, left) := by
  induction budget generalizing loc parts with
  | zero => exact walkWith_of_openWith hext hfile (by simp) parts loc h
  | succ budget ih => exact walkWith_of_openWith hext hfile (fun _ _ => ih) parts loc h

/-- Below something that is no directory nothing is opened. -/
theorem openWith_eq_none {follow : Location α → List (Part α) → Option (Location α)} {loc : Location α}
    (hloc : tree.isDirectory loc = false) (parts : List (Part α)) : tree.openWith follow loc parts = none := by
  cases parts with
  | nil => rfl
  | cons part rest =>
      cases part with
      | here | up => simp [openWith, hloc]
      | entry name =>
          have hnone : tree.node (name :: loc) = none := by
            by_contra hnode
            simp [tree.isDirectory_of_entry hnode] at hloc
          simp [openWith, hnone, hloc]

theorem openWith_append {follow : Location α → List (Part α) → Option (Location α)}
    {follow' : Location α → List (Part α) → Option (Location α × Nat)} {budget : Nat} {rest : List (Part α)}
    (hrest : rest ≠ []) {continue_ : Location α × Nat → Option (Location α)}
    (hnil : ∀ loc, continue_ (loc, budget) = tree.openWith follow loc rest)
    (hfollow : ∀ loc parts, follow loc (parts ++ rest) = (follow' loc parts).bind continue_) :
    ∀ (front : List (Part α)) (loc : Location α), tree.openWith follow loc (front ++ rest) =
      (tree.walkWith follow' budget loc front).bind continue_ := by
  intro front
  induction front with
  | nil =>
      intro loc
      exact (hnil loc).symm
  | cons part front ih =>
      intro loc
      have hmore : (front ++ rest).isEmpty = false := by simp [hrest]
      cases part with
      | here =>
          simp only [List.cons_append, openWith, Tree.walkWith]
          split
          · exact ih loc
          · rfl
      | up =>
          simp only [List.cons_append, openWith, Tree.walkWith]
          split
          · exact ih loc.tail
          · rfl
      | entry name =>
          cases hnode : tree.node (name :: loc) with
          | none => simp [openWith, Tree.walkWith, hnode, hmore]
          | some node =>
              cases node with
              | link target =>
                  simp only [List.cons_append, openWith, Tree.walkWith, hnode]
                  rw [← List.append_assoc]
                  exact hfollow _ _
              | directory =>
                  simp only [List.cons_append, openWith, Tree.walkWith, hnode]
                  exact ih (name :: loc)
              | file content =>
                  have hnotdir : tree.isDirectory (name :: loc) = false := by simp [isDirectory, hnode]
                  have hnothing : tree.openWith follow (name :: loc) (front ++ rest) = none :=
                    openWith_eq_none hnotdir _
                  simp only [List.cons_append, openWith, Tree.walkWith, hnode, hmore]
                  rw [← ih (name :: loc), hnothing]
                  rfl

/-- Opening along a path that leads somewhere, and on from there. -/
theorem opened_append {budget : Nat} {loc : Location α} (front : List (Part α)) {rest : List (Part α)}
    (hrest : rest ≠ []) : tree.opened budget loc (front ++ rest) =
      (tree.walk budget loc front).bind fun reached => tree.opened reached.2 reached.1 rest := by
  induction budget generalizing loc front with
  | zero => exact openWith_append hrest (fun _ => rfl) (fun _ _ => rfl) front loc
  | succ budget ih => exact openWith_append hrest (fun _ => rfl) (fun _ parts => ih parts) front loc

/-- A name that is no link is opened where it stands. -/
theorem eq_of_opened_entry {budget : Nat} {name : α} {dir opened : Location α}
    (hlink : ∀ target, tree.node (name :: dir) ≠ some (.link target))
    (h : tree.opened budget dir [.entry name] = some opened) : opened = name :: dir := by
  have hwith {follow : Location α → List (Part α) → Option (Location α)}
      (h : tree.openWith follow dir [.entry name] = some opened) : opened = name :: dir := by
    rw [openWith] at h
    split at h
    · split at h
      · exact (Option.some.inj h).symm
      · simp at h
    · rename_i target hnode
      exact absurd hnode (hlink target)
    · split at h
      · exact (Option.some.inj h).symm
      · simp at h
    · simp [openWith] at h
  cases budget with
  | zero => exact hwith h
  | succ budget => exact hwith h

/-! ### Creating and writing -/

section

variable [DecidableEq α]

theorem node_create (tree : Tree α β) (name : α) (dir : Location α) (node : Node α β)
    (hdir : tree.isDirectory dir = true) (hnew : (tree.node (name :: dir)).isNone = true) (loc : Location α) :
    (tree.create name dir node hdir hnew).node loc = if loc = name :: dir then some node else tree.node loc := rfl

theorem extends_create (tree : Tree α β) (name : α) (dir : Location α) (node : Node α β)
    (hdir : tree.isDirectory dir = true) (hnew : (tree.node (name :: dir)).isNone = true) :
    tree.Extends (tree.create name dir node hdir hnew) := by
  intro loc found hfound
  refine ⟨found, ?_, rfl⟩
  rw [node_create, if_neg, hfound]
  rintro rfl
  simp [hfound] at hnew

variable (tree) in
/-- The tree with other contents of a file. -/
def write (loc : Location α) (content : β) : Tree α β where
  node l := if l = loc ∧ tree.isFile loc = true then some (.file content) else tree.node l
  entries := tree.entries
  depth := tree.depth
  node_root := by
    rw [if_neg, tree.node_root]
    rintro ⟨rfl, hfile⟩
    simp [isFile, tree.node_root] at hfile
  node_parent := by
    intro name dir h
    have hparent : tree.node dir = some .directory := by
      split at h
      · rename_i hfile
        obtain ⟨content, hcontent⟩ := tree.isFile_iff.mp hfile.2
        exact tree.node_parent (by rw [hfile.1, hcontent]; simp)
      · exact tree.node_parent h
    rw [if_neg, hparent]
    rintro ⟨rfl, hfile⟩
    simp [isFile, hparent] at hfile
  mem_entries := by
    intro name dir
    rw [tree.mem_entries]
    split
    · rename_i hfile
      obtain ⟨content, hcontent⟩ := tree.isFile_iff.mp hfile.2
      simp [hfile.1, hcontent]
    · rfl
  nodup_entries := tree.nodup_entries
  length_le := by
    intro l h
    split at h
    · rename_i hfile
      obtain ⟨content, hcontent⟩ := tree.isFile_iff.mp hfile.2
      exact tree.length_le (by rw [hfile.1, hcontent]; simp)
    · exact tree.length_le h

theorem node_write (tree : Tree α β) (loc l : Location α) (content : β) : (tree.write loc content).node l =
    if l = loc ∧ tree.isFile loc = true then some (.file content) else tree.node l := rfl

/-- Only the contents change. -/
theorem shape_write (tree : Tree α β) (loc l : Location α) (content : β) :
    ((tree.write loc content).node l).map Node.shape = (tree.node l).map Node.shape := by
  rw [node_write]
  split
  · rename_i hfile
    obtain ⟨old, hold⟩ := tree.isFile_iff.mp hfile.2
    rw [hfile.1, hold]
    rfl
  · rfl

theorem extends_write (tree : Tree α β) (loc : Location α) (content : β) :
    tree.Extends (tree.write loc content) := by
  intro l node hnode
  have hshape := tree.shape_write loc l content
  rw [hnode] at hshape
  exact Option.map_eq_some_iff.mp hshape

/-! ### Moving -/

variable (tree) in
/-- What is below a directory, as a tree of its own. -/
def subtree (loc : Location α) (hloc : tree.isDirectory loc = true) : Tree α β where
  node l := tree.node (l ++ loc)
  entries l := tree.entries (l ++ loc)
  depth := tree.depth
  node_root := tree.isDirectory_iff.mp hloc
  node_parent := tree.node_parent
  mem_entries := tree.mem_entries
  nodup_entries := fun _ => tree.nodup_entries _
  length_le := by
    intro l h
    have hle := tree.length_le h
    rw [List.length_append] at hle
    omega

/-- The location below `above` that leads to `loc`. -/
def below (above loc : Location α) : Location α := loc.rdrop above.length

omit [DecidableEq α] in
@[simp] theorem below_append (above l : Location α) : below above (l ++ above) = l :=
  List.rdrop_append_length

omit [DecidableEq α] in
theorem not_suffix_root {name : α} {dir : Location α} : ¬ name :: dir <:+ [] := by simp

variable (tree) in
/-- The tree with another tree below a new entry, which is the last in its directory. -/
def graft (name : α) (dir : Location α) (sub : Tree α β) (hdir : tree.isDirectory dir = true)
    (hnew : (tree.node (name :: dir)).isNone = true) : Tree α β where
  node loc := if name :: dir <:+ loc then sub.node (below (name :: dir) loc) else tree.node loc
  entries loc :=
    if name :: dir <:+ loc then sub.entries (below (name :: dir) loc)
    else if loc = dir then tree.entries loc ++ [name] else tree.entries loc
  depth := max tree.depth (sub.depth + (dir.length + 1))
  node_root := by
    rw [if_neg not_suffix_root, tree.node_root]
  node_parent := by
    intro name' dir' h
    by_cases hin : name :: dir <:+ dir'
    · obtain ⟨front, rfl⟩ := hin
      have hin' : name :: dir <:+ name' :: (front ++ name :: dir) := ⟨name' :: front, rfl⟩
      rw [if_pos hin', show name' :: (front ++ name :: dir) = name' :: front ++ name :: dir from rfl,
        below_append] at h
      rw [if_pos (List.suffix_append _ _), below_append]
      exact sub.node_parent h
    · rw [if_neg hin]
      by_cases hself : name :: dir = name' :: dir'
      · rw [← (List.cons.inj hself).2]
        exact tree.isDirectory_iff.mp hdir
      · rw [if_neg (by simp [List.suffix_cons_iff, hself, hin])] at h
        exact tree.node_parent h
  mem_entries := by
    intro name' dir'
    by_cases hin : name :: dir <:+ dir'
    · obtain ⟨front, rfl⟩ := hin
      have hin' : name :: dir <:+ name' :: (front ++ name :: dir) := ⟨name' :: front, rfl⟩
      rw [if_pos hin', if_pos (List.suffix_append _ _),
        show name' :: (front ++ name :: dir) = name' :: front ++ name :: dir from rfl, below_append, below_append]
      exact sub.mem_entries
    · rw [if_neg hin]
      by_cases hdir' : dir' = dir
      · subst hdir'
        rw [if_pos rfl, List.mem_append, List.mem_singleton, tree.mem_entries]
        by_cases hname : name' = name
        · subst hname
          rw [if_pos List.suffix_rfl]
          have hroot : below (name' :: dir') (name' :: dir') = [] := below_append (name' :: dir') []
          simp [hroot, sub.node_root]
        · rw [if_neg (by simp [List.suffix_cons_iff, hin, Ne.symm hname])]
          simp [hname]
      · rw [if_neg hdir', if_neg (by simp [List.suffix_cons_iff, hin, Ne.symm hdir']), tree.mem_entries]
  nodup_entries := by
    intro dir'
    split
    · exact sub.nodup_entries _
    · split
      · rename_i heq
        subst heq
        apply List.nodup_append.mpr
        refine ⟨tree.nodup_entries _, by simp, ?_⟩
        intro entry hentry other hother
        rw [List.mem_singleton.mp hother]
        rintro rfl
        exact tree.mem_entries.mp hentry (Option.isNone_iff_eq_none.mp hnew)
      · exact tree.nodup_entries dir'
  length_le := by
    intro loc h
    split at h
    · rename_i hin
      obtain ⟨front, rfl⟩ := hin
      rw [below_append] at h
      have hle := sub.length_le h
      rw [List.length_append, List.length_cons]
      exact (Nat.add_le_add_right hle _).trans (le_max_right _ _)
    · exact (tree.length_le h).trans (le_max_left _ _)

theorem node_graft (tree : Tree α β) (name : α) (dir : Location α) (sub : Tree α β)
    (hdir : tree.isDirectory dir = true) (hnew : (tree.node (name :: dir)).isNone = true) (loc : Location α) :
    (tree.graft name dir sub hdir hnew).node loc =
      if name :: dir <:+ loc then sub.node (below (name :: dir) loc) else tree.node loc := rfl

variable (tree) in
/-- The tree after an entry was moved, with all that is below it, to a name that is missing or is
given up. -/
def move (name : α) (dir : Location α) (name' : α) (dir' : Location α) : Tree α β :=
  let rest := (tree.prune name' dir').prune name dir
  if h : rest.isDirectory dir' = true ∧ (rest.node (name' :: dir')).isNone = true then
    if hsub : tree.isDirectory (name :: dir) = true then
      rest.graft name' dir' (tree.subtree (name :: dir) hsub) h.1 h.2
    else
      match tree.node (name :: dir) with
      | some node => rest.create name' dir' node h.1 h.2
      | none => tree
  else tree

/-- A directory takes along what is below it, unless the new name is below it too. -/
theorem node_move (tree : Tree α β) {name : α} {dir : Location α} {name' : α} {dir' : Location α}
    (hsub : tree.isDirectory (name :: dir) = true) (hdir' : tree.isDirectory dir' = true)
    (hout : ¬ name :: dir <:+ dir') (loc : Location α) : (tree.move name dir name' dir').node loc =
      if name' :: dir' <:+ loc then tree.node (below (name' :: dir') loc ++ name :: dir)
      else if name :: dir <:+ loc then none else tree.node loc := by
  have hself : ¬ name' :: dir' <:+ dir' := by
    intro h
    have hle := h.length_le
    rw [List.length_cons] at hle
    omega
  have hrest : ((tree.prune name' dir').prune name dir).isDirectory dir' = true := by
    rw [isDirectory_iff, node_prune, if_neg hout, node_prune, if_neg hself]
    exact tree.isDirectory_iff.mp hdir'
  have hnew : (((tree.prune name' dir').prune name dir).node (name' :: dir')).isNone = true := by
    rw [node_prune, node_prune, if_pos List.suffix_rfl]
    split <;> rfl
  rw [move, dif_pos ⟨hrest, hnew⟩, dif_pos hsub, node_graft]
  split
  · rfl
  · rename_i hloc
    rw [node_prune, node_prune, if_neg hloc]

end

end Tree

end FileTree
