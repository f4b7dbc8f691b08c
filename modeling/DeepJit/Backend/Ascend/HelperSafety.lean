import DeepJit.Backend.Ascend.Helper

/-!
# What the helper leaves behind

The tree below the shadow is followed as a table, which each call that returns changes at one entry.
Nothing outside the shadow is ever changed: the helper writes through no link.
-/

namespace DeepJit.Ascend.Aicpu.Helper

open FileTree (Location Target Tree)

/-- What is below the shadow. The last name of an entry stands first. -/
abbrev Table := List Bytes → Option (FileTree.Node Bytes Bytes)

def Table.put (table : Table) (l : List Bytes) (node : FileTree.Node Bytes Bytes) : Table := fun k =>
  if k = l then some node else table k

/-- The directory and all above it. -/
def Table.mkdirs (table : Table) (l : List Bytes) : Table := fun k =>
  if k <:+ l then some .directory else table k

/-- Links in a directory to what a path holds. -/
def Table.link (table : Table) (l : List Bytes) (source : Path) (names : List Bytes) : Table
  | [] => table []
  | name :: k =>
      if k = l ∧ names.contains name = true then some (.link (source.child name).target) else table (name :: k)

/-- The path of something below a path. -/
def Path.under (path : Path) (l : List Bytes) : Path := { path with parts := l.map .entry ++ path.parts }

/-- The table after a call of `overlay` for a directory of the toolkit that holds `names`. A layer is
the directory with the names that are left out. -/
def Table.overlay (table : Table) (cann : Path) (layer : List Bytes × List Bytes) (names : List Bytes) : Table :=
  (table.put layer.1 .directory).link layer.1 (cann.under layer.1) (names.filter fun name => !layer.2.contains name)

/-- On the way to an entry are directories, or nothing yet. -/
def Table.Plain (table : Table) (l : List Bytes) : Prop :=
  ∀ above, above <:+ l → table above = none ∨ table above = some .directory

/-- The location of the shadow in the work directory. -/
def top (work : Location Bytes) : Location Bytes := bytes "shadow" :: work

/-- The path of an entry below the shadow. -/
def dest (state : Path) (l : List Bytes) : Path :=
  ⟨state.absolute, l.map .entry ++ .entry (bytes "shadow") :: state.parts⟩

/-- The work directory is there and has no shadow yet. -/
structure Fresh (host : Host) (tree : Tree Bytes Bytes) (state : Path) (work : Location Bytes) (left : Nat) :
    Prop where
  leads : state.leads host tree = some (work, left)
  isDirectory : tree.isDirectory work = true
  new : tree.node (top work) = none

/-- The tree has the table below the shadow and is the same elsewhere. -/
structure Holds (tree : Tree Bytes Bytes) (work : Location Bytes) (table : Table) (s : Files) : Prop where
  outside : ∀ loc, ¬ top work <:+ loc → s.tree.node loc = tree.node loc
  below : ∀ l, s.tree.node (l ++ top work) = table l

/-- Nothing outside the shadow is different. -/
def Outside (tree : Tree Bytes Bytes) (work : Location Bytes) (s : Files) : Prop :=
  ∃ table, Holds tree work table s

section

variable {host : Host} {tree : Tree Bytes Bytes} {state : Path} {work : Location Bytes} {left : Nat}
  {table : Table} {s s' : Files} {l : List Bytes} {name : Bytes} {node : FileTree.Node Bytes Bytes}

/-! ### Tables -/

theorem put_apply {k : List Bytes} : table.put l node k = if k = l then some node else table k := rfl

theorem mkdirs_apply {k : List Bytes} : table.mkdirs l k = if k <:+ l then some .directory else table k := rfl

theorem overlay_nil {cann : Path} {layer : List Bytes × List Bytes} {names : List Bytes} :
    table.overlay cann layer names [] = if [] = layer.1 then some .directory else table [] := rfl

theorem overlay_cons {cann : Path} {layer : List Bytes × List Bytes} {names k : List Bytes} :
    table.overlay cann layer names (name :: k) =
      if k = layer.1 ∧ name ∈ names ∧ name ∉ layer.2 then some (.link ((cann.under layer.1).child name).target)
      else if name :: k = layer.1 then some .directory else table (name :: k) := by
  simp [Table.overlay, Table.link, Table.put, List.mem_filter]

theorem put_put {node' : FileTree.Node Bytes Bytes} : (table.put l node).put l node' = table.put l node' := by
  funext k
  simp only [Table.put]
  split <;> rfl

theorem put_self (h : table l = some node) : table.put l node = table := by
  funext k
  rw [Table.put]
  split
  · rename_i heq
    rw [heq, h]
  · rfl

theorem mkdirs_cons : table.mkdirs (name :: l) = (table.mkdirs l).put (name :: l) .directory := by
  funext k
  simp only [Table.mkdirs, Table.put, List.suffix_cons_iff]
  by_cases hself : k = name :: l
  · simp [hself]
  · simp [hself]

theorem link_nil {source : Path} : table.link l source [] = table := by
  funext k
  cases k with
  | nil => rfl
  | cons name k => simp [Table.link]

theorem link_cons {source : Path} {names : List Bytes} :
    (table.put (name :: l) (.link (source.child name).target)).link l source names =
      table.link l source (name :: names) := by
  funext k
  cases k with
  | nil => simp [Table.link, Table.put]
  | cons n k =>
      simp only [Table.link, Table.put, List.cons.injEq]
      by_cases hk : k = l
      · by_cases hn : n = name
        · simp [hk, hn]
        · simp [hk, hn]
      · simp [hk]

theorem mkdirs_new : table.mkdirs l (name :: l) = table (name :: l) := by
  rw [mkdirs_apply, if_neg]
  intro h
  have hle := h.length_le
  rw [List.length_cons] at hle
  omega

theorem Table.Plain.mkdirs : (table.mkdirs l).Plain l := fun above habove =>
  .inr (by rw [mkdirs_apply, if_pos habove])

theorem Table.Plain.nil (h : table [] = some .directory) : table.Plain [] := by
  intro above habove
  obtain rfl := List.suffix_nil.mp habove
  exact .inr h

theorem Table.Plain.cons (h : table.Plain l)
    (hname : table (name :: l) = none ∨ table (name :: l) = some .directory) : table.Plain (name :: l) := by
  intro above habove
  rcases List.suffix_cons_iff.mp habove with rfl | habove
  · exact hname
  · exact h above habove

theorem Table.Plain.of_suffix {above : List Bytes} (h : table.Plain l) (habove : above <:+ l) :
    table.Plain above :=
  fun _ hmore => h _ (hmore.trans habove)

theorem Table.Plain.put (h : table.Plain l) : (table.put (name :: l) node).Plain l := by
  intro above habove
  rw [Table.put, if_neg]
  · exact h above habove
  · rintro rfl
    have hle := habove.length_le
    rw [List.length_cons] at hle
    omega

/-! ### The tree and its table -/

theorem Holds.of_tree (h : Holds tree work table s) (htree : s'.tree = s.tree) : Holds tree work table s' := by
  refine ⟨?_, ?_⟩
  · rw [htree]
    exact h.outside
  · rw [htree]
    exact h.below

theorem Holds.put (h : Holds tree work table s)
    (hnode : ∀ loc, s'.tree.node loc = if loc = l ++ top work then some node else s.tree.node loc) :
    Holds tree work (table.put l node) s' := by
  refine ⟨fun loc hloc => ?_, fun k => ?_⟩
  · rw [hnode, if_neg, h.outside loc hloc]
    rintro rfl
    exact hloc (List.suffix_append _ _)
  · rw [hnode, Table.put, h.below]
    simp only [List.append_left_inj]

theorem Fresh.holds (h : Fresh host tree state work left) (hs : s.tree = tree) :
    Holds tree work (fun _ => none) s := by
  refine ⟨fun loc _ => by rw [hs], fun k => ?_⟩
  rw [hs]
  exact tree.node_eq_none_of_suffix h.new (List.suffix_append _ _)

theorem Fresh.extends_tree (h : Fresh host tree state work left) (hs : Holds tree work table s) :
    tree.Extends s.tree := by
  intro loc node hnode
  refine ⟨node, ?_, rfl⟩
  rw [hs.outside loc, hnode]
  intro hloc
  rw [tree.node_eq_none_of_suffix h.new hloc] at hnode
  simp at hnode

theorem Holds.isDirectory_iff (h : Holds tree work table s) :
    s.tree.isDirectory (l ++ top work) = true ↔ table l = some .directory := by
  rw [Tree.isDirectory_iff, h.below]

/-- What holds a directory is a directory. -/
theorem Holds.directory_of_suffix (h : Holds tree work table s) (hl : table l ≠ none) {above : List Bytes}
    (habove : above <:+ l) (hne : above ≠ l) : table above = some .directory := by
  obtain ⟨front, rfl⟩ := habove
  rw [← h.isDirectory_iff]
  have hfront : front ≠ [] := by
    rintro rfl
    exact hne rfl
  apply s.tree.isDirectory_of_suffix hfront
  rw [← List.append_assoc, h.below]
  exact hl

theorem Holds.mkdirs_self (h : Holds tree work table s) (hl : table l = some .directory) :
    table.mkdirs l = table := by
  funext k
  rw [Table.mkdirs]
  split
  · rename_i hk
    by_cases heq : k = l
    · rw [heq, hl]
    · exact (h.directory_of_suffix (by simp [hl]) hk heq).symm
  · rfl

theorem dest_child : (dest state l).child name = dest state (name :: l) := rfl

theorem dest_target : (dest state l).target.parts =
    state.target.parts ++ (l ++ [bytes "shadow"]).reverse.map .entry := by
  simp [dest, Path.target]

/-- Below the shadow, a path through directories leads to its own place. -/
theorem leads_dest (hfresh : Fresh host tree state work left) (h : Holds tree work table s)
    (hplain : table.Plain l) :
    (dest state l).leads host s.tree =
      if s.tree.isDirectory (l ++ top work) then some (l ++ top work, left) else none := by
  have hext := hfresh.extends_tree h
  have hstate : s.tree.walk host.links (state.target.start host.cwd) state.target.parts = some (work, left) :=
    hext.walk hfresh.leads
  have hplain' : ∀ above, above <:+ l ++ [bytes "shadow"] → s.tree.node (above ++ work) = none ∨
      s.tree.node (above ++ work) = some .directory := by
    intro above habove
    rcases List.suffix_concat_iff.mp habove with rfl | ⟨k, rfl, hk⟩
    · exact .inr (s.tree.isDirectory_iff.mp (hext.isDirectory hfresh.isDirectory))
    · rw [List.append_assoc]
      exact h.below k ▸ hplain k hk
  rw [Path.leads, dest_target, Tree.walk_append, show (dest state l).target.start host.cwd =
    state.target.start host.cwd from rfl, hstate, Option.bind_some]
  have hresolve := s.tree.resolve_plain left work (hext.isDirectory hfresh.isDirectory) hplain'
  rw [List.append_assoc] at hresolve
  exact hresolve

theorem leads_directory (hfresh : Fresh host tree state work left) (h : Holds tree work table s)
    (hl : table l = some .directory) : (dest state l).leads host s.tree = some (l ++ top work, left) := by
  rw [leads_dest hfresh h, if_pos (h.isDirectory_iff.mpr hl)]
  intro above habove
  by_cases heq : above = l
  · exact .inr (heq ▸ hl)
  · exact .inr (h.directory_of_suffix (by simp [hl]) habove heq)

/-! ### Calls of the operating system -/

theorem post_syscall {α : Type} {f : Tree Bytes Bytes → Except OsError (α × Tree Bytes Bytes)}
    {Q : α → Files → Prop} {E : Exception → Files → Prop}
    (hok : ∀ value t, f s.tree = .ok (value, t) → Q value { s with tree := t, calls := s.calls + 1 })
    (herror : ∀ error, error = .other ∨ f s.tree = .error error → E (.os error) { s with calls := s.calls + 1 }) :
    Post Q E (syscall host f s) := by
  rw [syscall]
  split
  · exact herror _ (.inl rfl)
  · cases hf : f s.tree with
    | ok result => exact hok _ _ hf
    | error error => exact herror _ (.inr hf)

/-- A call that only looks at the tree. -/
theorem post_look {α : Type} {f : Tree Bytes Bytes → Except OsError (α × Tree Bytes Bytes)}
    (hf : ∀ value t, f s.tree = .ok (value, t) → t = s.tree) :
    Post (fun value s' => s'.tree = s.tree ∧ f s.tree = .ok (value, s.tree)) (fun _ s' => s'.tree = s.tree)
      (syscall host f s) := by
  apply post_syscall
  · intro value t h
    obtain rfl := hf value t h
    exact ⟨rfl, h⟩
  · exact fun _ _ => rfl

theorem post_tryOs {α : Type} {x : Py α} {handler : OsError → Py α} {Q : α → Files → Prop}
    {E E' : Exception → Files → Prop} (hx : Post Q E' (x s))
    (hos : ∀ error s', E' (.os error) s' → Post Q E (handler error s'))
    (hother : ∀ error s', E' error s' → (∀ os, error ≠ .os os) → E error s') : Post Q E (tryOs x handler s) := by
  unfold tryOs
  cases hxs : x s with
  | mk result t =>
      rw [hxs] at hx
      cases result with
      | ok value => exact hx
      | error error =>
          cases error with
          | os error => exact hos error t hx
          | unicode => exact hother _ t hx (by simp)
          | runtime function status => exact hother _ t hx (by simp)

/-- The two branches of `mkdir` for an error of the call. -/
theorem post_match {x : Py Unit} {y : OsError → Py Unit} {Q : Unit → Files → Prop} {E : Exception → Files → Prop}
    (error : OsError) (hmissing : error = .noEntry → Post Q E (x s)) (hother : Post Q E (y error s)) :
    Post Q E ((match error with | .noEntry => x | error => y error) s) := by
  cases error with
  | noEntry => exact hmissing rfl
  | fileExists | notDirectory | isDirectory | other => exact hother

theorem ok_inj {ε α : Type} {a b : α} (h : (pure a : Except ε α) = .ok b) : a = b := Except.ok.inj h

theorem throw_ne_ok {ε α : Type} {error : ε} {a : α} (h : (throw error : Except ε α) = .ok a) : False := by
  cases h

theorem post_isDir (path : Path) :
    Post (fun found s' => s'.tree = s.tree ∧
        (found = true ↔ ∃ loc left, path.leads host s.tree = some (loc, left) ∧ s.tree.isDirectory loc = true))
      (fun _ s' => s'.tree = s.tree) (isDir host path s) := by
  refine (post_look ?_).imp ?_ fun _ _ h => h
  · intro value t h
    split at h
    · exact (Prod.mk.inj (ok_inj h)).2.symm
    · exact (Prod.mk.inj (ok_inj h)).2.symm
  · rintro found s' ⟨htree, h⟩
    refine ⟨htree, ?_⟩
    split at h
    · rename_i loc left' hleads
      rw [← (Prod.mk.inj (ok_inj h)).1, hleads]
      simp
    · rename_i hleads
      rw [← (Prod.mk.inj (ok_inj h)).1, hleads]
      simp

theorem post_iterdir (path : Path) :
    Post (fun names s' => s'.tree = s.tree ∧ ∃ loc left, path.leads host s.tree = some (loc, left) ∧
        s.tree.isDirectory loc = true ∧ names = s.tree.entries loc)
      (fun _ s' => s'.tree = s.tree) (iterdir host path s) := by
  refine (post_look ?_).imp ?_ fun _ _ h => h
  · intro value t h
    split at h
    · split at h
      · exact (Prod.mk.inj (ok_inj h)).2.symm
      · exact (throw_ne_ok h).elim
    · exact (throw_ne_ok h).elim
  · rintro names s' ⟨htree, h⟩
    refine ⟨htree, ?_⟩
    split at h
    · rename_i loc left' hleads
      split at h
      · rename_i hdir
        exact ⟨loc, left', hleads, hdir, (Prod.mk.inj (ok_inj h)).1.symm⟩
      · exact (throw_ne_ok h).elim
    · exact (throw_ne_ok h).elim

theorem post_openRead (path : Path) :
    Post (fun file s' => s'.tree = s.tree ∧ ∃ left, path.leads host s.tree = some (file, left))
      (fun _ s' => s'.tree = s.tree) (openRead host path s) := by
  refine (post_look ?_).imp ?_ fun _ _ h => h
  · intro value t h
    split at h
    · split at h
      · exact (Prod.mk.inj (ok_inj h)).2.symm
      · exact (throw_ne_ok h).elim
    · exact (throw_ne_ok h).elim
  · rintro file s' ⟨htree, h⟩
    refine ⟨htree, ?_⟩
    split at h
    · rename_i loc left' hleads
      split at h
      · obtain rfl := (Prod.mk.inj (ok_inj h)).1
        exact ⟨left', hleads⟩
      · exact (throw_ne_ok h).elim
    · exact (throw_ne_ok h).elim

theorem post_readAll (file : Location Bytes) :
    Post (fun data s' => s'.tree = s.tree ∧ s.tree.node file = some (.file data)) (fun _ s' => s'.tree = s.tree)
      (readAll host file s) := by
  refine (post_look ?_).imp ?_ fun _ _ h => h
  · intro value t h
    split at h
    · exact (Prod.mk.inj (ok_inj h)).2.symm
    · exact (throw_ne_ok h).elim
  · rintro data s' ⟨htree, h⟩
    refine ⟨htree, ?_⟩
    split at h
    · rename_i content hnode
      rw [hnode, (Prod.mk.inj (ok_inj h)).1]
    · exact (throw_ne_ok h).elim

theorem post_close : Post (fun _ s' => s'.tree = s.tree) (fun _ s' => s'.tree = s.tree) (close host s) := by
  refine (post_look ?_).imp (fun _ _ h => h.1) fun _ _ h => h
  exact fun _ _ h => (Prod.mk.inj (ok_inj h)).2.symm

theorem post_readBytes (path : Path) :
    Post (fun data s' => s'.tree = s.tree ∧
        ∃ file left, path.leads host s.tree = some (file, left) ∧ s.tree.node file = some (.file data))
      (fun _ s' => s'.tree = s.tree) (readBytes host path s) := by
  apply Action.post_bind (post_openRead path)
  rintro file t ⟨htree, left', hleads⟩
  apply Action.post_bind ((post_readAll file).imp (fun _ _ h => h) fun _ _ h => h.trans htree)
  rintro data t' ⟨htree', hnode⟩
  apply Action.post_bind (post_close.imp (fun _ _ h => h) fun _ _ h => h.trans (htree'.trans htree))
  intro _ t'' hclose
  exact ⟨hclose.trans (htree'.trans htree), file, left', hleads, htree ▸ hnode⟩

/-- A new entry in a directory. -/
theorem post_place (path : Path) {parent : List (FileTree.Part Bytes)} {dir : Location Bytes} {left' : Nat}
    (hparts : path.parts = .entry name :: parent)
    (hleads : Path.leads host s.tree { path with parts := parent } = some (dir, left'))
    (hdir : s.tree.isDirectory dir = true) :
    Post (fun _ s' => s.tree.node (name :: dir) = none ∧
        ∀ loc, s'.tree.node loc = if loc = name :: dir then some node else s.tree.node loc)
      (fun error s' => s'.tree = s.tree ∧ error ≠ .os .noEntry) (place host node path s) := by
  apply post_syscall
  · intro _ t h
    rw [hparts] at h
    simp only [hleads, if_pos hdir] at h
    split at h
    · rename_i hnew
      rw [← (Prod.mk.inj (ok_inj h)).2]
      exact ⟨Option.isNone_iff_eq_none.mp hnew.2, fun _ => rfl⟩
    · exact (throw_ne_ok h).elim
  · intro error h
    refine ⟨rfl, ?_⟩
    rw [hparts] at h
    simp only [hleads, if_pos hdir] at h
    rcases h with rfl | h
    · simp
    · split at h
      · cases h
      · cases h
        simp

/-- Where the parent is missing, nothing is placed. -/
theorem post_place_missing (path : Path) {parent : List (FileTree.Part Bytes)}
    (hparts : path.parts = .entry name :: parent)
    (hleads : Path.leads host s.tree { path with parts := parent } = none) :
    Post (fun _ _ => False) (fun _ s' => s'.tree = s.tree) (place host node path s) := by
  apply post_syscall
  · intro _ t h
    rw [hparts] at h
    simp only [hleads] at h
    exact (throw_ne_ok h).elim
  · exact fun _ _ => rfl

/-! ### Entries below the shadow -/

theorem place_top (hfresh : Fresh host tree state work left) (h : Holds tree work table s) :
    Post (fun _ s' => Holds tree work (table.put [] node) s')
      (fun error s' => Holds tree work table s' ∧ error ≠ .os .noEntry) (place host node (dest state []) s) := by
  have hext := hfresh.extends_tree h
  have hleads : state.leads host s.tree = some (work, left) := hext.walk hfresh.leads
  refine (post_place (dest state []) rfl hleads (hext.isDirectory hfresh.isDirectory)).imp ?_ fun _ _ hkept => ?_
  · exact fun _ s' hnode => h.put hnode.2
  · exact ⟨h.of_tree hkept.1, hkept.2⟩

theorem place_below (hfresh : Fresh host tree state work left) (h : Holds tree work table s)
    (hplain : table.Plain l) :
    Post (fun _ s' => table l = some .directory ∧ Holds tree work (table.put (name :: l) node) s')
      (fun error s' => Holds tree work table s' ∧ (error = .os .noEntry → table l = none))
      (place host node (dest state (name :: l)) s) := by
  have hleads := leads_dest hfresh h hplain
  rcases hplain l List.suffix_rfl with hnone | hdir
  · have hmissing : ¬ s.tree.isDirectory (l ++ top work) = true := by simp [h.isDirectory_iff, hnone]
    rw [if_neg hmissing] at hleads
    refine (post_place_missing (dest state (name :: l)) rfl hleads).imp (fun _ _ hfalse => hfalse.elim)
      fun _ _ htree => ?_
    exact ⟨h.of_tree htree, fun _ => hnone⟩
  · rw [if_pos (h.isDirectory_iff.mpr hdir)] at hleads
    have hdir' : s.tree.isDirectory (l ++ top work) = true := h.isDirectory_iff.mpr hdir
    refine (post_place (dest state (name :: l)) rfl hleads hdir').imp (fun _ s' hnode => ?_) fun _ _ hkept => ?_
    · exact ⟨hdir, h.put hnode.2⟩
    · exact ⟨h.of_tree hkept.1, fun heq => absurd heq hkept.2⟩

theorem mkdirFailed_below (hfresh : Fresh host tree state work left) (h : Holds tree work table s)
    (hplain : table.Plain l) (existOk : Bool) (error : OsError) :
    Post (fun _ s' => Holds tree work table s' ∧ table l = some .directory) (fun _ s' => Holds tree work table s')
      (mkdirFailed host existOk (dest state l) error s) := by
  rw [mkdirFailed]
  split
  · apply Action.post_bind ((post_isDir (dest state l)).imp (fun _ _ hfound => hfound) fun _ _ => h.of_tree)
    rintro found t ⟨htree, hfound⟩
    split
    · obtain ⟨loc, left', hleads, hdir⟩ := hfound.mp ‹_›
      rw [leads_dest hfresh h hplain] at hleads
      split at hleads
      · rename_i hdir'
        exact ⟨h.of_tree htree, h.isDirectory_iff.mp hdir'⟩
      · simp at hleads
    · exact h.of_tree htree
  · exact h

theorem mkdir_below (hfresh : Fresh host tree state work left) (h : Holds tree work table s)
    (hplain : table.Plain l) (existOk : Bool) :
    Post (fun _ s' => Holds tree work (table.put l .directory) s') (fun _ s' => Holds tree work table s')
      (mkdir host existOk (dest state l) s) := by
  have hplace : Post (fun _ s' => Holds tree work (table.put l .directory) s')
      (fun _ s' => Holds tree work table s') (place host .directory (dest state l) s) := by
    cases l with
    | nil => exact (place_top hfresh h).imp (fun _ _ hput => hput) fun _ _ hkept => hkept.1
    | cons name l =>
        exact (place_below hfresh h (hplain.of_suffix (List.suffix_cons _ _))).imp (fun _ _ hput => hput.2)
          fun _ _ hkept => hkept.1
  refine post_tryOs hplace ?_ fun _ _ hkept _ => hkept
  intro error t hkept
  refine post_match error (fun _ => hkept) ?_
  refine (mkdirFailed_below hfresh hkept hplain existOk error).imp (fun _ _ hdir => ?_) fun _ _ h => h
  rw [put_self hdir.2]
  exact hdir.1

theorem mkdirFailed_parents (hfresh : Fresh host tree state work left) (h : Holds tree work table s)
    (hplain : table.Plain l) (existOk : Bool) (error : OsError) :
    Post (fun _ s' => Holds tree work (table.mkdirs l) s') (fun _ s' => Outside tree work s')
      (mkdirFailed host existOk (dest state l) error s) := by
  refine (mkdirFailed_below hfresh h hplain existOk error).imp (fun _ _ hdir => ?_)
    fun _ _ hkept => ⟨table, hkept⟩
  rw [hdir.1.mkdirs_self hdir.2]
  exact hdir.1

/-- A directory with all above it. The induction follows the calls for the parents. -/
theorem mkdirParents_below (hfresh : Fresh host tree state work left) (h : Holds tree work table s)
    (hplain : table.Plain l) (existOk : Bool) :
    Post (fun _ s' => Holds tree work (table.mkdirs l) s') (fun _ s' => Outside tree work s')
      (mkdirParents host state.absolute existOk (dest state l).parts s) := by
  induction l generalizing s existOk with
  | nil =>
      have hput : table.put [] .directory = table.mkdirs [] := by
        funext k
        simp [Table.put, Table.mkdirs]
      have hplace : Post (fun _ s' => Holds tree work (table.put [] .directory) s')
          (fun error s' => Holds tree work table s' ∧ error ≠ .os .noEntry)
          (place host .directory (dest state []) s) := place_top hfresh h
      rw [hput] at hplace
      refine post_tryOs hplace ?_ fun _ _ hkept _ => ⟨table, hkept.1⟩
      rintro error t ⟨hkept, hne⟩
      apply post_match error
      · intro hmissing
        exact absurd (congrArg Exception.os hmissing) hne
      · exact mkdirFailed_parents hfresh hkept hplain existOk error
  | cons name l ih =>
      have hplain' := hplain.of_suffix (List.suffix_cons name l)
      have hplace : Post (fun _ s' => Holds tree work (table.mkdirs (name :: l)) s')
          (fun _ s' => Holds tree work table s') (place host .directory (dest state (name :: l)) s) := by
        refine (place_below hfresh h hplain').imp (fun _ _ hput => ?_) fun _ _ hkept => hkept.1
        rw [mkdirs_cons, h.mkdirs_self hput.1]
        exact hput.2
      refine post_tryOs hplace ?_ fun _ _ hkept _ => ⟨table, hkept⟩
      intro error t hkept
      apply post_match error
      · intro _
        apply Action.post_bind (ih hkept hplain' true)
        intro _ t' ht'
        have hplain'' : (table.mkdirs l).Plain (name :: l) := by
          refine Table.Plain.mkdirs.cons ?_
          rw [mkdirs_new]
          exact hplain _ List.suffix_rfl
        rw [mkdirs_cons]
        exact (mkdir_below hfresh ht' hplain'' existOk).imp (fun _ _ hput => hput) fun _ _ hkept => ⟨_, hkept⟩
      · exact mkdirFailed_parents hfresh hkept hplain existOk error

/-! ### Files below the shadow -/

theorem openWrite_below (hfresh : Fresh host tree state work left) (h : Holds tree work table s)
    (hplain : table.Plain l) (hnew : table (name :: l) = none) :
    Post (fun file s' => file = name :: l ++ top work ∧ Holds tree work (table.put (name :: l) (.file [])) s')
      (fun _ s' => Holds tree work table s') (openWrite host (dest state (name :: l)) s) := by
  have hleads := leads_dest hfresh h hplain
  have hmissing : s.tree.node (name :: (l ++ top work)) = none := (h.below (name :: l)).trans hnew
  have htarget : (dest state (name :: l)).target.parts = (dest state l).target.parts ++ [.entry name] := by
    simp [dest, Path.target]
  have hopened : ∀ loc, s.tree.opened host.links ((dest state (name :: l)).target.start host.cwd)
      (dest state (name :: l)).target.parts = some loc → loc = name :: (l ++ top work) := by
    intro loc hloc
    rw [htarget, Tree.opened_append _ (by simp)] at hloc
    obtain ⟨reached, hreached, hentry⟩ := Option.bind_eq_some_iff.mp hloc
    have hwalk : (dest state l).leads host s.tree = some reached := hreached
    rw [hleads] at hwalk
    split at hwalk
    · obtain rfl := Option.some.inj hwalk
      exact Tree.eq_of_opened_entry (by simp [hmissing]) hentry
    · simp at hwalk
  apply post_syscall
  · intro file t hcall
    split at hcall
    · exact (throw_ne_ok hcall).elim
    · exact (throw_ne_ok hcall).elim
    · rename_i name' dir hfound
      obtain ⟨rfl, rfl⟩ := List.cons.inj (hopened _ hfound)
      split at hcall
      · obtain ⟨rfl, rfl⟩ := Prod.mk.inj (ok_inj hcall)
        exact ⟨rfl, h.put fun _ => rfl⟩
      · rename_i hnot
        have hopen := Tree.openable_of_opened hfound
        rcases hopen with hfile | ⟨-, n, d, heq, hdir⟩
        · simp [Tree.isFile, hmissing] at hfile
        · obtain ⟨rfl, rfl⟩ := List.cons.inj heq
          exact absurd ⟨hdir, by simp [hmissing]⟩ hnot
  · exact fun _ _ => h.of_tree rfl

variable (host) in
theorem writeAll_below (h : Holds tree work table s) {before : Bytes} (hl : table l = some (.file before))
    (data : Bytes) :
    Post (fun _ s' => Holds tree work (table.put l (.file data)) s') (fun _ s' => Holds tree work table s')
      (writeAll host (l ++ top work) data s) := by
  apply post_syscall
  · intro _ t hcall
    obtain rfl := (Prod.mk.inj (ok_inj hcall)).2
    refine h.put fun loc => ?_
    have hfile : s.tree.isFile (l ++ top work) = true := s.tree.isFile_iff.mpr ⟨before, (h.below l).trans hl⟩
    simp [Tree.node_write, hfile]
  · exact fun _ _ => h.of_tree rfl

theorem put_apply_self : table.put l node l = some node := by simp [Table.put]

/-- Writing to a file that was opened below the shadow. -/
theorem write_opened (h : Holds tree work (table.put l (.file [])) s) (data : Bytes) :
    Post (fun _ s' => Holds tree work (table.put l (.file data)) s') (fun _ s' => Outside tree work s')
      (writeAll host (l ++ top work) data s) := by
  have hwrite := writeAll_below host h put_apply_self data
  rw [put_put] at hwrite
  exact hwrite.imp (fun _ _ hput => hput) fun _ _ hkept => ⟨_, hkept⟩

theorem close_below (h : Holds tree work table s) :
    Post (fun _ s' => Holds tree work table s') (fun _ s' => Outside tree work s') (close host s) :=
  post_close.imp (fun _ _ => h.of_tree) fun _ _ htree => ⟨table, h.of_tree htree⟩

theorem writeText_below (hfresh : Fresh host tree state work left) (h : Holds tree work table s)
    (hplain : table.Plain l) (hnew : table (name :: l) = none) (text : String) :
    Post (fun _ s' => ∃ data, host.encode text = some data ∧
        Holds tree work (table.put (name :: l) (.file data)) s')
      (fun _ s' => Outside tree work s') (writeText host (dest state (name :: l)) text s) := by
  apply Action.post_bind ((openWrite_below hfresh h hplain hnew).imp (fun _ _ hopen => hopen)
    fun _ _ hkept => ⟨table, hkept⟩)
  rintro file t ⟨rfl, ht⟩
  cases hencode : host.encode text with
  | none => exact ⟨_, ht⟩
  | some data =>
      apply Action.post_bind (write_opened ht data)
      intro _ t' ht'
      exact (close_below ht').imp (fun _ _ hclose => ⟨data, rfl, hclose⟩) fun _ _ hkept => hkept

/-- The contents of a file of the installed toolkit, as a path leads to it. -/
def Reads (host : Host) (tree : Tree Bytes Bytes) (path : Path) (data : Bytes) : Prop :=
  ∃ file left, path.leads host tree = some (file, left) ∧ tree.node file = some (.file data)

/-- What a path read before the shadow was there, it reads still. -/
theorem Fresh.reads (hfresh : Fresh host tree state work left) (h : Holds tree work table s) {path : Path}
    {file : Location Bytes} {left' : Nat} {data data' : Bytes}
    (hleads : path.leads host s.tree = some (file, left')) (hnode : s.tree.node file = some (.file data))
    (hread : Reads host tree path data') : data = data' := by
  obtain ⟨file', left'', hleads', hnode'⟩ := hread
  have hsame := (hfresh.extends_tree h).walk hleads'
  obtain ⟨rfl, -⟩ := Prod.mk.inj (Option.some.inj (hleads.symm.trans hsame))
  have hout : ¬ top work <:+ file := by
    intro hin
    rw [tree.node_eq_none_of_suffix hfresh.new hin] at hnode'
    simp at hnode'
  rw [h.outside file hout, hnode'] at hnode
  exact (FileTree.Node.file.inj (Option.some.inj hnode)).symm

theorem copyfile_below (hfresh : Fresh host tree state work left) (h : Holds tree work table s)
    (hplain : table.Plain l) (hnew : table (name :: l) = none) (loader : Path) :
    Post (fun _ s' => ∃ data, (∀ data', Reads host tree loader data' → data = data') ∧
        Holds tree work (table.put (name :: l) (.file data)) s')
      (fun _ s' => Outside tree work s') (copyfile host loader (dest state (name :: l)) s) := by
  apply Action.post_bind ((post_openRead loader).imp (fun _ _ hopen => hopen)
    fun _ _ htree => ⟨table, h.of_tree htree⟩)
  rintro input t₁ ⟨htree₁, left₁, hleads⟩
  have h₁ := h.of_tree htree₁
  apply Action.post_bind ((openWrite_below hfresh h₁ hplain hnew).imp (fun _ _ hopen => hopen)
    fun _ _ hkept => ⟨table, hkept⟩)
  rintro output t₂ ⟨rfl, h₂⟩
  apply Action.post_bind ((post_readAll input).imp (fun _ _ hread => hread)
    fun _ _ htree => ⟨_, h₂.of_tree htree⟩)
  rintro data t₃ ⟨htree₃, hinput⟩
  apply Action.post_bind (write_opened (h₂.of_tree htree₃) data)
  intro _ t₄ h₄
  apply Action.post_bind (close_below h₄)
  intro _ t₅ h₅
  refine (close_below h₅).imp (fun _ _ hclose => ⟨data, ?_, hclose⟩) fun _ _ hkept => hkept
  rintro data' ⟨file, left', hfile, hnode⟩
  have hsame := (hfresh.extends_tree h₁).walk hfile
  rw [htree₁] at hsame
  obtain ⟨rfl, -⟩ := Prod.mk.inj (Option.some.inj (hleads.symm.trans hsame))
  exact hfresh.reads h₂ ((hfresh.extends_tree h₂).walk hfile) hinput ⟨_, left', hfile, hnode⟩

/-! ### The archive of the package -/

/-- A file in a directory below the shadow is found at its place. -/
theorem leads_file (hfresh : Fresh host tree state work left) (h : Holds tree work table s)
    (hl : table l = some .directory) {file : Location Bytes} {left' : Nat} {data : Bytes}
    (hleads : (dest state (name :: l)).leads host s.tree = some (file, left'))
    (hnode : s.tree.node (name :: (l ++ top work)) = some (.file data)) : file = name :: (l ++ top work) := by
  have htarget : (dest state (name :: l)).target.parts = (dest state l).target.parts ++ [.entry name] := by
    simp [dest, Path.target]
  have hparent := leads_directory hfresh h hl
  have hwalk : s.tree.walk host.links (state.target.start host.cwd) (dest state l).target.parts =
      some (l ++ top work, left) := hparent
  rw [Path.leads, htarget, Tree.walk_append, show (dest state (name :: l)).target.start host.cwd =
    state.target.start host.cwd from rfl, hwalk, Option.bind_some,
    s.tree.walk_entry left (by simp [hnode]) (by simp [hnode])] at hleads
  exact (Prod.mk.inj (Option.some.inj hleads)).1.symm

/-- The files that were read are those of the table. -/
theorem readFiles_below (hfresh : Fresh host tree state work left) (h : Holds tree work table s)
    (hl : table l = some .directory)
    (hfiles : ∀ name, table (name :: l) = none ∨ ∃ data, table (name :: l) = some (.file data))
    (names : List Bytes) (hnames : ∀ name ∈ names, table (name :: l) ≠ none) :
    Post (fun files s' => s'.tree = s.tree ∧ files.map Prod.fst = names ∧
        ∀ file ∈ files, table (file.1 :: l) = some (.file file.2))
      (fun _ s' => s'.tree = s.tree) (readFiles host (dest state l) names s) := by
  induction names generalizing s with
  | nil => exact ⟨rfl, rfl, by simp⟩
  | cons name names ih =>
      apply Action.post_bind (post_readBytes (dest state (name :: l)))
      rintro data t ⟨htree, file, left', hleads, hfile⟩
      have ht := h.of_tree htree
      have hrest := ih ht fun other hother => hnames other (List.mem_cons_of_mem _ hother)
      apply Action.post_bind (hrest.imp (fun _ _ hread => hread) fun _ _ hkept => hkept.trans htree)
      rintro files t' ⟨htree', hfst, hread⟩
      refine ⟨htree'.trans htree, by simp [hfst], ?_⟩
      intro entry hentry
      rcases List.mem_cons.mp hentry with rfl | hentry
      · rcases hfiles name with hnone | ⟨before, hbefore⟩
        · exact absurd hnone (hnames name List.mem_cons_self)
        · have hnode : s.tree.node (name :: (l ++ top work)) = some (.file before) :=
            (h.below (name :: l)).trans hbefore
          obtain rfl := leads_file hfresh h hl hleads hnode
          rw [hnode] at hfile
          rw [hbefore, FileTree.Node.file.inj (Option.some.inj hfile)]
      · exact hread entry hentry

/-- The files in a directory that holds nothing else, each once. -/
def Holding (table : Table) (l : List Bytes) (files : List (Bytes × Bytes)) : Prop :=
  (files.map Prod.fst).Nodup ∧ ∀ name data, (name, data) ∈ files ↔ table (name :: l) = some (.file data)

theorem writeArchive_below (hfresh : Fresh host tree state work left) (h : Holds tree work table s)
    (hplain : table.Plain l) (hnew : table (name :: l) = none) (stage : List Bytes)
    (hstage : table stage = some .directory) (hne : stage ≠ l)
    (hfiles : ∀ name, table (name :: stage) = none ∨ ∃ data, table (name :: stage) = some (.file data))
    (arcname : Bytes) :
    Post (fun _ s' => ∃ files, Holding table stage files ∧
        Holds tree work (table.put (name :: l) (.file (host.archive arcname files))) s')
      (fun _ s' => Outside tree work s')
      (writeArchive host (dest state (name :: l)) (dest state stage) arcname s) := by
  apply Action.post_bind ((openWrite_below hfresh h hplain hnew).imp (fun _ _ hopen => hopen)
    fun _ _ hkept => ⟨table, hkept⟩)
  rintro file t₁ ⟨rfl, h₁⟩
  have hsame (n : Bytes) : table.put (name :: l) (.file []) (n :: stage) = table (n :: stage) := by
    rw [Table.put, if_neg]
    intro heq
    exact hne (List.cons.inj heq).2
  have hstage₁ : table.put (name :: l) (.file []) stage = some .directory := by
    rw [Table.put, if_neg, hstage]
    rintro rfl
    simp [hnew] at hstage
  apply Action.post_bind ((post_iterdir (dest state stage)).imp (fun _ _ hlist => hlist)
    fun _ _ htree => ⟨_, h₁.of_tree htree⟩)
  rintro names t₂ ⟨htree₂, loc, left', hleads, hdir, rfl⟩
  have h₂ := h₁.of_tree htree₂
  rw [leads_directory hfresh h₁ hstage₁] at hleads
  obtain ⟨rfl, -⟩ := Prod.mk.inj (Option.some.inj hleads)
  have hnode (n : Bytes) : t₁.tree.node (n :: (stage ++ top work)) = table (n :: stage) :=
    (h₁.below (n :: stage)).trans (hsame n)
  have hread := readFiles_below hfresh h₂ hstage₁ (by simpa only [hsame] using hfiles)
    (t₁.tree.entries (stage ++ top work)) (by
      intro n hn
      rw [hsame, ← hnode]
      exact t₁.tree.mem_entries.mp hn)
  apply Action.post_bind (hread.imp (fun _ _ hread => hread) fun _ _ htree => ⟨_, h₂.of_tree htree⟩)
  rintro files t₃ ⟨htree₃, hfst, hcontent⟩
  apply Action.post_bind (write_opened (h₂.of_tree htree₃) _)
  intro _ t₄ h₄
  refine (close_below h₄).imp (fun _ _ hclose => ⟨files, ⟨?_, ?_⟩, hclose⟩) fun _ _ hkept => hkept
  · rw [hfst]
    exact t₁.tree.nodup_entries _
  · intro n data
    constructor
    · intro hmem
      rw [← hsame]
      exact hcontent _ hmem
    · intro hfile
      have hmem : n ∈ files.map Prod.fst := by
        rw [hfst, t₁.tree.mem_entries, hnode, hfile]
        simp
      obtain ⟨⟨n', data'⟩, hmem', rfl⟩ := List.mem_map.mp hmem
      have hsame' := hcontent _ hmem'
      rw [hsame, hfile] at hsame'
      rw [FileTree.Node.file.inj (Option.some.inj hsame')]
      exact hmem'

/-! ### Overlays -/

theorem linkEach_below (hfresh : Fresh host tree state work left) (h : Holds tree work table s)
    (hplain : table.Plain l) (source : Path) (hidden names : List Bytes) :
    Post (fun _ s' => Holds tree work (table.link l source (names.filter fun name => !hidden.contains name)) s')
      (fun _ s' => Outside tree work s') (linkEach host source (dest state l) hidden names s) := by
  induction names generalizing s table with
  | nil =>
      rw [List.filter_nil, link_nil]
      exact h
  | cons name names ih =>
      by_cases hhidden : name ∈ hidden
      · rw [List.filter_cons_of_neg (by simp [hhidden])]
        apply Action.post_bind (Q := fun _ s' => Holds tree work table s')
        · beta_reduce
          rw [if_neg (by simp [hhidden])]
          exact h
        · exact fun _ t ht => ih ht hplain
      · rw [List.filter_cons_of_pos (by simp [hhidden]), ← link_cons]
        apply Action.post_bind (Q := fun _ s' =>
          Holds tree work (table.put (name :: l) (.link (source.child name).target)) s')
        · beta_reduce
          rw [if_pos (by simp [hhidden])]
          exact (place_below hfresh h hplain).imp (fun _ _ hput => hput.2) fun _ _ hkept => ⟨table, hkept.1⟩
        · exact fun _ t ht => ih ht hplain.put

/-- The names are all that the installed toolkit has below a path. -/
def Lists (host : Host) (tree : Tree Bytes Bytes) (source : Path) (names : List Bytes) : Prop :=
  ∀ budget ≤ host.links, ∀ name rest, tree.walk budget (source.target.start host.cwd)
    (source.target.parts ++ .entry name :: rest) ≠ none → name ∈ names

theorem walk_of_entry {budget : Nat} {loc : Location Bytes} {rest : List (FileTree.Part Bytes)}
    (h : tree.walk budget loc (.entry name :: rest) ≠ none) : tree.node (name :: loc) ≠ none := by
  intro hnone
  apply h
  rw [show FileTree.Part.entry name :: rest = [.entry name] ++ rest from rfl, Tree.walk_append,
    tree.walk_entry_none budget hnone, Option.bind_none]

/-- What a path of the toolkit shows is a directory that is still listed. -/
theorem source_directory (hfresh : Fresh host tree state work left) (h : Holds tree work table s) {source : Path}
    {budget : Nat} (hbudget : budget ≤ host.links) {rest : List (FileTree.Part Bytes)}
    (hwalk : tree.walk budget (source.target.start host.cwd)
      (source.target.parts ++ .entry name :: rest) ≠ none) :
    ∃ loc left', source.leads host s.tree = some (loc, left') ∧ s.tree.isDirectory loc = true ∧
      name ∈ s.tree.entries loc := by
  rw [Tree.walk_append] at hwalk
  obtain ⟨reached, hreached⟩ := Option.ne_none_iff_exists'.mp hwalk
  obtain ⟨⟨loc, left'⟩, hloc, hentry⟩ := Option.bind_eq_some_iff.mp hreached
  have hnode := walk_of_entry (by rw [hentry]; simp)
  have hext := hfresh.extends_tree h
  have hnode' := hext.node_ne_none hnode
  obtain ⟨more, hmore⟩ := Nat.exists_eq_add_of_le hbudget
  have hleads := hext.walk (tree.walk_add hloc more)
  rw [← hmore] at hleads
  exact ⟨loc, _, hleads, s.tree.isDirectory_of_entry hnode', s.tree.mem_entries.mpr hnode'⟩

theorem overlay_below (hfresh : Fresh host tree state work left) (h : Holds tree work table s)
    (hplain : table.Plain l) (cann : Path) (hidden : List Bytes) :
    Post (fun _ s' => ∃ names, Lists host tree (cann.under l) names ∧
        Holds tree work (table.overlay cann (l, hidden) names) s')
      (fun _ s' => Outside tree work s') (overlay host (cann.under l) (dest state l) hidden s) := by
  apply Action.post_bind ((mkdir_below hfresh h hplain true).imp (fun _ _ hput => hput)
    fun _ _ hkept => ⟨table, hkept⟩)
  intro _ t₁ h₁
  have hplain₁ : (table.put l .directory).Plain l := by
    intro above habove
    by_cases heq : above = l
    · exact .inr (by simp [Table.put, heq])
    · rw [Table.put, if_neg heq]
      exact hplain above habove
  apply Action.post_bind ((post_isDir _).imp (fun _ _ hfound => hfound) fun _ _ htree => ⟨_, h₁.of_tree htree⟩)
  rintro found t₂ ⟨htree₂, hfound⟩
  have h₂ := h₁.of_tree htree₂
  split
  · apply Action.post_bind ((post_iterdir _).imp (fun _ _ hlist => hlist)
      fun _ _ htree => ⟨_, h₂.of_tree htree⟩)
    rintro names t₃ ⟨htree₃, loc, left', hleads, -, rfl⟩
    refine (linkEach_below hfresh (h₂.of_tree htree₃) hplain₁ _ hidden _).imp (fun _ _ hlinks => ?_)
      fun _ _ hkept => hkept
    refine ⟨_, ?_, hlinks⟩
    intro budget hbudget name rest hwalk
    obtain ⟨loc', left'', hleads', -, hmem⟩ := source_directory hfresh h₂ hbudget hwalk
    obtain ⟨rfl, -⟩ := Prod.mk.inj (Option.some.inj (hleads.symm.trans hleads'))
    exact hmem
  · rename_i hnot
    refine ⟨[], ?_, ?_⟩
    · intro budget hbudget name rest hwalk
      obtain ⟨loc, left', hleads, hdir, -⟩ := source_directory hfresh h₁ hbudget hwalk
      exact absurd (hfound.mpr ⟨loc, left', hleads, hdir⟩) hnot
    · rw [Table.overlay, List.filter_nil, link_nil]
      exact h₂

end

end DeepJit.Ascend.Aicpu.Helper
