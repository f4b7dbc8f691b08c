import DeepJit.Utils.Filesystem

/-!
# When a directory tree is removed

`safe_remove_all` removes a tree, and nothing outside it, exactly if no symbolic link of the tree
sends it the wrong way when its turn comes.
-/

namespace DeepJit

open FileTree (Tree Node Location Target)

variable (budget : Nat) (base : Location Bytes)

/-- What the removal of the tree `name` in `base` is for: the tree is gone, nothing else is
different, and every entry that was removed is the one that its path names, reached without
following a link. -/
structure EmptiesTree (tree : Tree Bytes Bytes) (name : Bytes) (after : Filesystem) : Prop where
  gone : after.tree.node (name :: base) = none
  outside : ∀ loc, ¬name :: base <:+ loc → after.tree.node loc = tree.node loc
  targets : ∀ removal ∈ after.removed, removal.location = removal.path ++ base

/-- Nothing can be removed through a path to a directory: what it holds are links that lead nowhere
and non-empty directories of the same kind. -/
inductive Inert (tree : Tree Bytes Bytes) : List Bytes → Prop
  | mk {path : List Bytes} {loc : Location Bytes} {left : Nat} :
      tree.resolve budget base path = some (loc, left) →
      (∀ name ∈ tree.entries loc, tree.resolve budget base (name :: path) ≠ none →
        tree.entries (name :: loc) ≠ []) →
      (∀ name ∈ tree.entries loc, tree.resolve budget base (name :: path) ≠ none →
        Inert tree (name :: path)) →
      Inert tree path

/-- Every symbolic link below a path still leads somewhere when its turn comes, which is when the
entries listed before it, on every level, are gone. It does not lead to a directory, or only to one
through which nothing can be removed. -/
inductive Clears : Tree Bytes Bytes → List Bytes → Prop
  | missing {tree path} : tree.node (path ++ base) = none → Clears tree path
  | file {tree path content} : tree.node (path ++ base) = some (.file content) → Clears tree path
  | link {tree path target loc left} : tree.node (path ++ base) = some (.link target) →
      tree.resolve budget base path = some (loc, left) →
      (tree.isDirectory loc = true → Inert budget base tree path) → Clears tree path
  | directory {tree path} : tree.node (path ++ base) = some .directory →
      (∀ done name rest, tree.entries (path ++ base) = done ++ name :: rest →
        Clears (tree.pruneAll (path ++ base) done) (name :: path)) →
      Clears tree path

/-- Every entry removed so far was the one that its path names. -/
def Filesystem.Direct (fs : Filesystem) : Prop :=
  ∀ removal ∈ fs.removed, removal.location = removal.path ++ base

section

variable {budget base} {fuel : Nat} {fs after : Filesystem} {path : List Bytes} {name : Bytes}

theorem Removes.direct (h : Removes path fs after) (hafter : after.Direct base) : fs.Direct base :=
  fun removal hmem => hafter removal (h.removed.subset hmem)

/-- A removal by the direct path. -/
theorem remove_direct (hnode : fs.tree.node (name :: (path ++ base)) ≠ none)
    (hentries : fs.tree.entries (name :: (path ++ base)) = []) (hdirect : fs.Direct base) :
    (fs.remove budget base (name :: path)).tree = fs.tree.prune name (path ++ base) ∧
      (fs.remove budget base (name :: path)).Direct base := by
  have hparent := fs.tree.resolve_direct budget base (fs.tree.isDirectory_of_entry hnode)
  rw [Filesystem.remove, hparent]
  simp only [Option.isSome_iff_ne_none, ne_eq, hnode, not_false_eq_true, hentries, and_self, if_true]
  refine ⟨trivial, fun removal hmem => ?_⟩
  rcases List.mem_append.mp hmem with hmem | hmem
  · exact hdirect removal hmem
  · rw [List.mem_singleton.mp hmem]
    rfl

/-- A path that ends in an entry of its own directory, which is no link. -/
theorem resolve_entry (tree : Tree Bytes Bytes) {loc : Location Bytes} {left : Nat}
    (hpath : tree.resolve budget base path = some (loc, left)) (hentry : tree.isDirectory (name :: loc) = true) :
    tree.resolve budget base (name :: path) = some (name :: loc, left) := by
  have hnode := tree.isDirectory_iff.mp hentry
  rw [tree.resolve_cons, hpath, Option.bind_some]
  exact tree.walk_entry left (by simp [hnode]) (by simp [hnode])

/-! ### Directories through which nothing can be removed -/

/-- A non-empty directory is not removed. -/
theorem remove_of_entries {loc : Location Bytes} {left : Nat}
    (hpath : fs.tree.resolve budget base path = some (loc, left)) (hentries : fs.tree.entries (name :: loc) ≠ []) :
    fs.remove budget base (name :: path) = fs := by
  rw [Filesystem.remove, hpath]
  simp [hentries]

theorem removeEntries_of_inert (h : Inert budget base fs.tree path) {loc : Location Bytes} {left : Nat}
    (hpath : fs.tree.resolve budget base path = some (loc, left)) {names : List Bytes}
    (hnames : names ⊆ fs.tree.entries loc)
    (hafter : removeEntries budget base fuel path names fs = some after) : after = fs := by
  induction h generalizing loc left fuel names after with
  | @mk path loc' left' hpath' hentries _ ih =>
      obtain ⟨rfl, rfl⟩ : loc' = loc ∧ left' = left := by
        simpa using hpath'.symm.trans hpath
      induction names with
      | nil => exact (Option.some.inj hafter).symm
      | cons name names ihnames =>
          rw [removeEntries_cons] at hafter
          obtain ⟨middle, hmiddle, hrest⟩ := Option.bind_eq_some_iff.mp hafter
          have hname := hnames (List.mem_cons_self ..)
          obtain rfl : middle = fs := by
            by_cases hresolve : fs.tree.resolve budget base (name :: path) = none
            · rw [safeRemoveAll_missing hresolve] at hmiddle
              exact (Option.some.inj hmiddle).symm
            · have hheld := hentries name hname hresolve
              have hdirectory := fs.tree.isDirectory_of_entries hheld
              have hreached := resolve_entry fs.tree hpath hdirectory
              obtain ⟨less, emptied, -, hemptied, rfl⟩ := safeRemoveAll_opened hreached hdirectory hmiddle
              obtain rfl := ih name hname hresolve hreached (List.Subset.refl _) hemptied
              exact remove_of_entries hpath hheld
          exact ihnames hrest (fun other hother => hnames (List.mem_cons_of_mem _ hother))

/-! ### The condition is enough -/

theorem resolve_missing (tree : Tree Bytes Bytes) (hparent : path = [] ∨ tree.isDirectory (path ++ base) = true)
    (hnode : tree.node (name :: (path ++ base)) = none) : tree.resolve budget base (name :: path) = none := by
  have hpath : tree.resolve budget base path = some (path ++ base, budget) := by
    rcases hparent with rfl | hparent
    · exact tree.resolve_nil budget base
    · exact tree.resolve_direct budget base hparent
  rw [tree.resolve_cons, hpath, Option.bind_some]
  exact tree.walk_entry_none budget hnode

/-- If every call removes its entry, the calls for the entries of a directory empty it. -/
theorem removeEntries_of_calls (tree : Tree Bytes Bytes) {loc : Location Bytes}
    (hcall : ∀ done name rest, tree.entries loc = done ++ name :: rest → ∀ fs after,
      fs.tree = tree.pruneAll loc done → fs.Direct base →
      safeRemoveAll budget base fuel fs (name :: path) = some after →
      after.tree = (tree.pruneAll loc done).prune name loc ∧ after.Direct base)
    (done rest : List Bytes) (hentries : tree.entries loc = done ++ rest) (htree : fs.tree = tree.pruneAll loc done)
    (hdirect : fs.Direct base) (hafter : removeEntries budget base fuel path rest fs = some after) :
    after.tree = tree.pruneAll loc (tree.entries loc) ∧ after.Direct base := by
  induction rest generalizing done fs with
  | nil =>
      obtain rfl := Option.some.inj hafter
      rw [hentries, List.append_nil]
      exact ⟨htree, hdirect⟩
  | cons name rest ih =>
      rw [removeEntries_cons] at hafter
      obtain ⟨middle, hmiddle, hrest⟩ := Option.bind_eq_some_iff.mp hafter
      obtain ⟨hpruned, hdirect'⟩ := hcall done name rest hentries fs middle htree hdirect hmiddle
      refine ih (done ++ [name]) (by simp [hentries]) ?_ hdirect' hrest
      rw [hpruned, tree.pruneAll_concat]

/-- A directory whose entries are gone goes with its own removal. -/
theorem remove_emptied {tree : Tree Bytes Bytes} (hnode : tree.node (name :: (path ++ base)) = some .directory)
    (htree : fs.tree = tree.pruneAll (name :: (path ++ base)) (tree.entries (name :: (path ++ base))))
    (hdirect : fs.Direct base) :
    (fs.remove budget base (name :: path)).tree = tree.prune name (path ++ base) ∧
      (fs.remove budget base (name :: path)).Direct base := by
  have hheld : fs.tree.node (name :: (path ++ base)) ≠ none := by
    rw [htree, tree.node_pruneAll_self, hnode]
    simp
  have hempty : fs.tree.entries (name :: (path ++ base)) = [] := by
    rw [htree, tree.entries_pruneAll_self, List.filter_eq_nil_iff]
    simp
  obtain ⟨hpruned, hdirect'⟩ := @remove_direct budget base fs path name hheld hempty hdirect
  rw [htree, tree.prune_pruneAll List.suffix_rfl] at hpruned
  exact ⟨hpruned, hdirect'⟩

/-- A tree that clears is removed with everything in it, by direct paths. -/
theorem emptied_of_clears {tree : Tree Bytes Bytes} {path' : List Bytes} (h : Clears budget base tree path') :
    ∀ {fuel fs after name path}, path' = name :: path → fs.tree = tree →
      (path = [] ∨ tree.isDirectory (path ++ base) = true) → fs.Direct base →
      safeRemoveAll budget base fuel fs (name :: path) = some after →
      after.tree = tree.prune name (path ++ base) ∧ after.Direct base := by
  induction h with
  | missing hnode =>
      intro fuel fs after name path hpath htree hparent hdirect hafter
      subst hpath htree
      rw [safeRemoveAll_missing (resolve_missing fs.tree hparent hnode)] at hafter
      obtain rfl := Option.some.inj hafter
      exact ⟨(fs.tree.prune_of_missing hnode).symm, hdirect⟩
  | @file tree _ content hnode =>
      intro fuel fs after name path hpath htree hparent hdirect hafter
      subst hpath htree
      have hnode' : fs.tree.node (name :: (path ++ base)) = some (.file content) := hnode
      have hfile : fs.tree.isDirectory (name :: (path ++ base)) = false := by
        rw [Tree.isDirectory, hnode']
      have hheld : fs.tree.node (name :: (path ++ base)) ≠ none := by simp [hnode']
      have hresolve : fs.tree.resolve budget base (name :: path) = some (name :: (path ++ base), budget) := by
        rw [fs.tree.resolve_cons, fs.tree.resolve_direct budget base (fs.tree.isDirectory_of_entry hheld),
          Option.bind_some]
        exact fs.tree.walk_entry budget hheld (by simp [hnode'])
      rw [safeRemoveAll_file hresolve hfile] at hafter
      obtain rfl := Option.some.inj hafter
      exact remove_direct hheld (fs.tree.entries_eq_nil hfile) hdirect
  | @link tree _ target loc left hnode hresolve hinert =>
      intro fuel fs after name path hpath htree hparent hdirect hafter
      subst hpath htree
      have hnode' : fs.tree.node (name :: (path ++ base)) = some (.link target) := hnode
      have hheld : fs.tree.node (name :: (path ++ base)) ≠ none := by simp [hnode']
      have hentries : fs.tree.entries (name :: (path ++ base)) = [] :=
        fs.tree.entries_eq_nil (by rw [Tree.isDirectory, hnode'])
      have hremove : after = fs.remove budget base (name :: path) := by
        cases hdirectory : fs.tree.isDirectory loc with
        | false =>
            rw [safeRemoveAll_file hresolve hdirectory] at hafter
            exact (Option.some.inj hafter).symm
        | true =>
            obtain ⟨less, emptied, -, hemptied, rfl⟩ := safeRemoveAll_opened hresolve hdirectory hafter
            rw [removeEntries_of_inert (hinert hdirectory) hresolve (List.Subset.refl _) hemptied]
      rw [hremove]
      exact remove_direct hheld hentries hdirect
  | @directory tree _ hnode hentries ih =>
      intro fuel fs after name path hpath htree hparent hdirect hafter
      subst hpath htree
      have hself : fs.tree.isDirectory (name :: path ++ base) = true := fs.tree.isDirectory_iff.mpr hnode
      obtain ⟨less, emptied, -, hemptied, rfl⟩ :=
        safeRemoveAll_opened (fs.tree.resolve_direct budget base hself) hself hafter
      obtain ⟨hpruned, hdirect'⟩ := removeEntries_of_calls fs.tree
        (fun done entry rest hsplit middle after hmiddle hdirect hafter =>
          ih done entry rest hsplit rfl hmiddle
            (.inr (by rw [Tree.isDirectory, Tree.node_pruneAll_self, hnode])) hdirect hafter)
        [] (fs.tree.entries (name :: path ++ base)) rfl rfl hdirect hemptied
      exact remove_emptied hnode hpruned hdirect'

/-! ### The condition is necessary -/

/-- By a path other than its own, an entry can only be kept. -/
theorem entries_of_detour (hdetour : fs.tree.isDirectory (path ++ base) = false) {loc : Location Bytes} {left : Nat}
    (hpath : fs.tree.resolve budget base path = some (loc, left)) (hnode : fs.tree.node (name :: loc) ≠ none)
    (hdirect : (fs.remove budget base (name :: path)).Direct base) : fs.tree.entries (name :: loc) ≠ [] := by
  intro hempty
  rw [Filesystem.remove, hpath] at hdirect
  simp only [Option.isSome_iff_ne_none, ne_eq, hnode, not_false_eq_true, hempty, and_self, if_true] at hdirect
  have hlocation : name :: loc = name :: path ++ base := hdirect _ (List.mem_append_right _ (List.mem_singleton_self _))
  obtain rfl : loc = path ++ base := List.tail_eq_of_cons_eq hlocation
  rw [fs.tree.isDirectory_of_entry hnode] at hdetour
  simp at hdetour

/-- While nothing is removed by a path other than its own, the calls for what a directory holds,
made by such a path, change nothing. -/
theorem inert_of_direct (hdetour : fs.tree.isDirectory (path ++ base) = false) {loc : Location Bytes} {left : Nat}
    (hpath : fs.tree.resolve budget base path = some (loc, left)) {names : List Bytes}
    (hnames : names ⊆ fs.tree.entries loc)
    (hafter : removeEntries budget base fuel path names fs = some after) (hdirect : after.Direct base) :
    after = fs ∧ ∀ name ∈ names, fs.tree.resolve budget base (name :: path) ≠ none →
      fs.tree.entries (name :: loc) ≠ [] ∧ Inert budget base fs.tree (name :: path) := by
  induction fuel using Nat.strong_induction_on generalizing path loc left names fs after with
  | h fuel ih =>
      induction names with
      | nil => exact ⟨(Option.some.inj hafter).symm, by simp⟩
      | cons name names ihnames =>
          rw [removeEntries_cons] at hafter
          obtain ⟨middle, hmiddle, hrest⟩ := Option.bind_eq_some_iff.mp hafter
          have hmiddleDirect := (removes_removeEntries hrest).direct hdirect
          have hnode : fs.tree.node (name :: loc) ≠ none := fs.tree.mem_entries.mp (hnames (List.mem_cons_self ..))
          have hname : middle = fs ∧ (fs.tree.resolve budget base (name :: path) ≠ none →
              fs.tree.entries (name :: loc) ≠ [] ∧ Inert budget base fs.tree (name :: path)) := by
            rcases safeRemoveAll_cases hmiddle with ⟨hnone, rfl⟩ | ⟨child, childLeft, hchild, hcases⟩
            · exact ⟨rfl, fun hsome => absurd hnone hsome⟩
            · rcases hcases with ⟨hfile, rfl⟩ | ⟨-, less, emptied, hless, hemptied, rfl⟩
              · have hheld := entries_of_detour hdetour hpath hnode hmiddleDirect
                have hdirectory := fs.tree.isDirectory_of_entries hheld
                obtain ⟨rfl, rfl⟩ : name :: loc = child ∧ left = childLeft := by
                  simpa using (resolve_entry fs.tree hpath hdirectory).symm.trans hchild
                rw [hdirectory] at hfile
                simp at hfile
              · have hchildDetour : fs.tree.isDirectory (name :: path ++ base) = false := by
                  by_contra hdirectory
                  have hheld := fs.tree.node_ne_none_of_isDirectory ((Bool.not_eq_false _).mp hdirectory)
                  have hparent : fs.tree.isDirectory (path ++ base) = true := fs.tree.isDirectory_of_entry hheld
                  rw [hparent] at hdetour
                  simp at hdetour
                obtain ⟨rfl, hinert⟩ := ih less (by omega) hchildDetour hchild (List.Subset.refl _) hemptied
                  ((removes_remove budget base emptied (name :: path)).direct hmiddleDirect)
                have hheld := entries_of_detour hdetour hpath hnode hmiddleDirect
                refine ⟨remove_of_entries hpath hheld, fun _ => ⟨hheld, Inert.mk hchild ?_ ?_⟩⟩
                · exact fun entry hentry hsome => (hinert entry hentry hsome).1
                · exact fun entry hentry hsome => (hinert entry hentry hsome).2
          obtain ⟨rfl, hfirst⟩ := hname
          obtain ⟨hsame, hothers⟩ := ihnames (fun other hother => hnames (List.mem_cons_of_mem _ hother)) hrest
          refine ⟨hsame, fun other hother => ?_⟩
          rcases List.mem_cons.mp hother with rfl | hother
          · exact hfirst
          · exact hothers other hother

/-- What the calls for the entries of a directory change, one of them changes. -/
theorem changed_by_entry {names : List Bytes} (hafter : removeEntries budget base fuel path names fs = some after)
    {loc : Location Bytes} (hloc : after.tree.node loc ≠ fs.tree.node loc) :
    ∃ name ∈ names, ∃ removal ∈ after.removed, name :: path <:+ removal.path ∧ removal.location = loc := by
  induction names generalizing fs with
  | nil =>
      obtain rfl := Option.some.inj hafter
      exact absurd rfl hloc
  | cons name names ih =>
      rw [removeEntries_cons] at hafter
      obtain ⟨middle, hmiddle, hrest⟩ := Option.bind_eq_some_iff.mp hafter
      by_cases hsame : after.tree.node loc = middle.tree.node loc
      · obtain ⟨removal, hmem, hremoval⟩ := (removes_safeRemoveAll hmiddle).changed loc (hsame ▸ hloc)
        exact ⟨name, List.mem_cons_self .., removal, (removes_removeEntries hrest).removed.subset hmem, hremoval⟩
      · obtain ⟨other, hother, hremoval⟩ := ih hrest hsame
        exact ⟨other, List.mem_cons_of_mem _ hother, hremoval⟩

/-- If the entries of a directory are gone in the end, each has cleared at its turn. -/
theorem clears_entries {tree : Tree Bytes Bytes} (hself : tree.isDirectory (path ++ base) = true)
    (hcall : ∀ {name} {fs after : Filesystem}, fs.Direct base →
      safeRemoveAll budget base fuel fs (name :: path) = some after → after.Direct base →
      after.tree.node (name :: (path ++ base)) = none → Clears budget base fs.tree (name :: path))
    (done : List Bytes) {rest : List Bytes} (hentries : tree.entries (path ++ base) = done ++ rest)
    (htree : fs.tree = tree.pruneAll (path ++ base) done) (hstart : fs.Direct base)
    (hafter : removeEntries budget base fuel path rest fs = some after) (hdirect : after.Direct base)
    (hgone : ∀ name, after.tree.node (name :: (path ++ base)) = none) :
    ∀ before name later, rest = before ++ name :: later →
      Clears budget base (tree.pruneAll (path ++ base) (done ++ before)) (name :: path) := by
  induction rest generalizing done fs with
  | nil => simp
  | cons next rest ih =>
      rw [removeEntries_cons] at hafter
      obtain ⟨middle, hmiddle, hrest⟩ := Option.bind_eq_some_iff.mp hafter
      have hmiddleDirect := (removes_removeEntries hrest).direct hdirect
      have hfs : fs.tree.isDirectory (path ++ base) = true := by
        rw [htree, Tree.isDirectory, tree.node_pruneAll_self]
        exact hself
      have hnext : middle.tree.node (next :: (path ++ base)) = none := by
        by_contra hheld
        obtain ⟨other, hother, removal, hmem, hsuffix, hlocation⟩ := changed_by_entry hrest
          (fun heq => hheld (heq.symm.trans (hgone next)))
        have hpath : removal.path = next :: path :=
          List.append_cancel_right ((hdirect removal hmem).symm.trans hlocation)
        rw [hpath] at hsuffix
        have hsame : other :: path = next :: path := hsuffix.eq_of_length (by simp)
        have hnodup := tree.nodup_entries (path ++ base)
        rw [hentries, List.nodup_append] at hnodup
        exact (List.nodup_cons.mp hnodup.2.1).1 ((List.cons.inj hsame).1 ▸ hother)
      have hclears := hcall hstart hmiddle hmiddleDirect hnext
      obtain ⟨hpruned, -⟩ := emptied_of_clears hclears rfl rfl (.inr hfs) hstart hmiddle
      intro before name later hsplit
      cases before with
      | nil =>
          obtain ⟨rfl, rfl⟩ := List.cons.inj hsplit
          rw [List.append_nil, ← htree]
          exact hclears
      | cons first before =>
          obtain ⟨rfl, hlater⟩ := List.cons.inj hsplit
          have hrestClears := ih (done ++ [next]) (by simp [hentries])
            (by rw [hpruned, htree, tree.pruneAll_concat]) hmiddleDirect hrest before name later hlater
          simpa using hrestClears

/-- A tree that is gone, with every entry in it removed by its own path, has cleared. -/
theorem clears_of_gone (hstart : fs.Direct base)
    (hafter : safeRemoveAll budget base fuel fs (name :: path) = some after) (hdirect : after.Direct base)
    (hgone : after.tree.node (name :: (path ++ base)) = none) : Clears budget base fs.tree (name :: path) := by
  induction fuel using Nat.strong_induction_on generalizing path name fs after with
  | h fuel ih =>
      cases hnode : fs.tree.node (name :: (path ++ base)) with
      | none => exact Clears.missing hnode
      | some node =>
          cases node with
          | file content => exact Clears.file hnode
          | link target =>
              cases hresolve : fs.tree.resolve budget base (name :: path) with
              | none =>
                  rw [safeRemoveAll_missing hresolve] at hafter
                  obtain rfl := Option.some.inj hafter
                  rw [hnode] at hgone
                  simp at hgone
              | some reached =>
                  refine Clears.link hnode hresolve fun hdirectory => ?_
                  obtain ⟨less, emptied, -, hemptied, rfl⟩ := safeRemoveAll_opened hresolve hdirectory hafter
                  have hdetour : fs.tree.isDirectory (name :: path ++ base) = false := by
                    rw [Tree.isDirectory, List.cons_append, hnode]
                  obtain ⟨-, hinert⟩ := inert_of_direct hdetour hresolve (List.Subset.refl _) hemptied
                    ((removes_remove budget base emptied (name :: path)).direct hdirect)
                  exact Inert.mk hresolve (fun entry hentry hsome => (hinert entry hentry hsome).1)
                    (fun entry hentry hsome => (hinert entry hentry hsome).2)
          | directory =>
              have hself : fs.tree.isDirectory (name :: path ++ base) = true := fs.tree.isDirectory_iff.mpr hnode
              obtain ⟨less, emptied, hless, hemptied, rfl⟩ :=
                safeRemoveAll_opened (fs.tree.resolve_direct budget base hself) hself hafter
              have hempty : emptied.tree.entries (name :: path ++ base) = [] := by
                by_contra hentries
                have hheld := emptied.tree.isDirectory_of_entries hentries
                have hparent : emptied.tree.isDirectory (path ++ base) = true :=
                  emptied.tree.isDirectory_of_entry (emptied.tree.node_ne_none_of_isDirectory hheld)
                rw [remove_of_entries (emptied.tree.resolve_direct budget base hparent) hentries] at hgone
                exact emptied.tree.node_ne_none_of_isDirectory hheld hgone
              refine Clears.directory hnode fun done entry rest hsplit => ?_
              have hentries := clears_entries hself
                (fun hstart hcall hdirect hgone => ih less (by omega) hstart hcall hdirect hgone)
                [] rfl rfl hstart hemptied
                ((removes_remove budget base emptied (name :: path)).direct hdirect)
                (fun entry => by
                  by_contra hheld
                  have hmem := emptied.tree.mem_entries.mpr hheld
                  rw [hempty] at hmem
                  exact List.not_mem_nil hmem)
              exact hentries done entry rest hsplit

end

/-- A tree without symbolic links clears. -/
theorem clears_of_linkFree {n : Nat} {tree : Tree Bytes Bytes} {path : List Bytes}
    (hn : tree.depth < n + (path ++ base).length)
    (hfree : ∀ below target, tree.node (below ++ (path ++ base)) ≠ some (.link target)) :
    Clears budget base tree path := by
  induction n generalizing tree path with
  | zero =>
      refine Clears.missing (by_contra fun hnode => ?_)
      have hle := tree.length_le hnode
      omega
  | succ n ih =>
      cases hnode : tree.node (path ++ base) with
      | none => exact Clears.missing hnode
      | some node =>
          cases node with
          | file content => exact Clears.file hnode
          | link target => exact absurd hnode (hfree [] target)
          | directory =>
              refine Clears.directory hnode fun done name rest _ => ih ?_ fun below target => ?_
              · rw [tree.depth_pruneAll, List.cons_append, List.length_cons]
                omega
              · have hbelow := hfree (below ++ [name]) target
                rw [List.append_assoc] at hbelow
                rw [tree.node_pruneAll]
                split
                · simp
                · exact hbelow

/-- `safe_remove_all` returns, and it does what it is for exactly if the tree clears. -/
theorem safeRemoveAll_empties_iff (tree : Tree Bytes Bytes) (name : Bytes) :
    ∃ after, safeRemoveAll budget base (removalDepth budget tree) ⟨tree, []⟩ [name] = some after ∧
      (EmptiesTree base tree name after ↔ Clears budget base tree [name]) := by
  obtain ⟨after, hafter⟩ := @safeRemoveAll_returns budget base (removalDepth budget tree)
    ⟨tree, []⟩ [name] (by simp) (by simp)
  have hstart : (Filesystem.mk tree []).Direct base := by
    intro removal hmem
    exact absurd hmem List.not_mem_nil
  refine ⟨after, hafter, ?_⟩
  constructor
  · intro hempties
    exact clears_of_gone hstart hafter hempties.targets hempties.gone
  · intro hclears
    obtain ⟨hpruned, hdirect⟩ := emptied_of_clears hclears rfl rfl (.inl rfl) hstart hafter
    refine ⟨?_, fun loc hloc => ?_, hdirect⟩
    · rw [hpruned, Tree.node_prune]
      exact if_pos List.suffix_rfl
    · rw [hpruned, Tree.node_prune]
      exact if_neg hloc

/-- A temporary directory in which a link to another directory was left. -/
def linkedTree : Tree Bytes Bytes :=
  let empty := Tree.root.create (bytes "include") [] .directory rfl rfl
  let header := empty.create (bytes "a.h") [bytes "include"] (.file []) rfl rfl
  let temporary := header.create (bytes "tmp") [] .directory rfl rfl
  temporary.create (bytes "link") [bytes "tmp"] (.link ⟨true, [.entry (bytes "include")]⟩) rfl rfl

/-- The file that the link leads to is removed. -/
theorem safeRemoveAll_follows_link :
    ∃ after, safeRemoveAll 40 [] (removalDepth 40 linkedTree) ⟨linkedTree, []⟩ [bytes "tmp"] = some after ∧
      ¬EmptiesTree [] linkedTree (bytes "tmp") after := by
  refine ⟨_, rfl, fun hempties => ?_⟩
  have hheader := hempties.outside [bytes "a.h", bytes "include"] (by decide)
  have hremoved : false = true := congrArg Option.isSome hheader
  simp at hremoved

end DeepJit
