import DeepJit.Utils.PermissionsSync

/-!
# Writing, creating and moving

What the other functions change when they return: `make_dirs` only adds directories and sets the mode
of a new one, `write_file_sync` changes the file that its path opens, and `rename` takes a directory
along with its modes.
-/

namespace DeepJit.Permissions

open FileTree (Location Tree)

/-! ### Creating directories -/

/-- Directories were created on the way to a location, and no mode was set but that of the last one,
which is new. -/
structure Makes (reached : Location Bytes) (effects : List Effect) (s s' : Files) : Prop
    extends Changes effects s s' where
  grows : s.tree.Extends s'.tree
  added : ∀ loc, s'.tree.node loc ≠ s.tree.node loc → ∃ mode, .mkdir loc mode ∈ effects
  above : ∀ effect ∈ effects, ∃ loc, effect.location = some loc ∧ loc <:+ reached
  chmods : ∀ loc before after, .chmod loc before after ∈ effects →
    loc = reached ∧ ∃ mode, .mkdir loc mode ∈ effects
  mkdirs : ∀ loc mode, .mkdir loc mode ∈ effects → s.tree.node loc = none

section

variable {host : Host} {s s' t : Files} {path : List Bytes} {loc reached : Location Bytes}
  {effects effects' : List Effect}

theorem Keeps.makes (h : Keeps [] s s') : Makes reached [] s s' := by
  refine ⟨h.toChanges, ?_, ?_, by simp, by simp, by simp⟩
  · rw [h.tree]
    exact Tree.Extends.refl _
  · simp [h.tree]

theorem mkdir_ok {name : Bytes} (h : mkdir host (name :: path) s = (.ok (), s')) :
    ∃ dir mode, s.resolve host path = .ok dir ∧ s.tree.node (name :: dir) = none ∧
      s'.tree.isDirectory (name :: dir) = true ∧ Makes (name :: dir) [.mkdir (name :: dir) mode] s s' := by
  rw [mkdir] at h
  obtain ⟨dir, hresolve, hcall⟩ := syscall_resolve_ok h
  split at hcall
  · rename_i hnew
    obtain rfl : _ = s' := by simpa [Pure.pure, Except.pure] using hcall
    have hnone : s.tree.node (name :: dir) = none := Option.isNone_iff_eq_none.mp hnew.2
    refine ⟨dir, _, hresolve, hnone, ?_, ⟨⟨rfl, rfl⟩, ?_, ?_, ?_, by simp, ?_⟩⟩
    · simp [Files.record, Tree.isDirectory, Tree.node_create]
    · exact Tree.extends_create s.tree name dir .directory hnew.1 hnew.2
    · intro l hl
      by_cases heq : l = name :: dir
      · subst heq
        exact ⟨_, List.mem_cons_self⟩
      · simp [Files.record, Tree.node_create, heq] at hl
    · intro effect heffect
      obtain rfl := List.mem_singleton.mp heffect
      exact ⟨_, rfl, List.suffix_rfl⟩
    · intro l mode hl
      obtain ⟨rfl, -⟩ : l = name :: dir ∧ mode = _ := by simpa using hl
      exact hnone
  · exact absurd hcall throw_ne_ok

theorem Makes.trans {above : Location Bytes} (h : Makes above effects s t) (h' : Makes reached effects' t s')
    (habove : above <:+ reached) (hquiet : ∀ loc before after, .chmod loc before after ∉ effects) :
    Makes reached (effects ++ effects') s s' := by
  refine ⟨h.toChanges.trans h'.toChanges, h.grows.trans h'.grows, ?_, ?_, ?_, ?_⟩
  · intro l hl
    by_cases hsame : s'.tree.node l = t.tree.node l
    · obtain ⟨mode, hmkdir⟩ := h.added l (hsame ▸ hl)
      exact ⟨mode, List.mem_append_left _ hmkdir⟩
    · obtain ⟨mode, hmkdir⟩ := h'.added l hsame
      exact ⟨mode, List.mem_append_right _ hmkdir⟩
  · intro effect heffect
    rcases List.mem_append.mp heffect with hmem | hmem
    · obtain ⟨l, hl, hsuffix⟩ := h.above effect hmem
      exact ⟨l, hl, hsuffix.trans habove⟩
    · exact h'.above effect hmem
  · intro l before after hl
    rcases List.mem_append.mp hl with hmem | hmem
    · exact absurd hmem (hquiet l before after)
    · obtain ⟨hreached, mode, hmkdir⟩ := h'.chmods l before after hmem
      exact ⟨hreached, mode, List.mem_append_right _ hmkdir⟩
  · intro l mode hl
    rcases List.mem_append.mp hl with hmem | hmem
    · exact h.mkdirs l mode hmem
    · by_contra hnode
      exact h.grows.node_ne_none hnode (h'.mkdirs l mode hmem)

/-- Directories on the way to a location that is not below another one are not below it either. -/
theorem Makes.outside {src : Location Bytes} (h : Makes reached effects s s') (hout : ¬ src <:+ reached) :
    ∀ effect ∈ effects, ∃ l, effect.location = some l ∧ ¬ src <:+ l := by
  intro effect heffect
  obtain ⟨l, hl, habove⟩ := h.above effect heffect
  exact ⟨l, hl, fun hin => hout (hin.trans habove)⟩

theorem Makes.node_below {src : Location Bytes} (h : Makes reached effects s s') (hout : ¬ src <:+ reached)
    (l : Location Bytes) : s'.tree.node (l ++ src) = s.tree.node (l ++ src) := by
  by_contra hchanged
  obtain ⟨mode, hmkdir⟩ := h.added _ hchanged
  obtain ⟨l', hl', hnot⟩ := h.outside hout _ hmkdir
  obtain rfl : l ++ src = l' := Option.some.inj hl'
  exact hnot (List.suffix_append _ _)

/-- What `create_directories` leaves, and whether it created the last directory. -/
def Created (host : Host) (path : List Bytes) (created : Bool) (effects : List Effect) (s s' : Files) : Prop :=
  ∃ reached, s'.resolve host path = .ok reached ∧ s'.tree.isDirectory reached = true ∧
    Makes reached effects s s' ∧ (∀ loc before after, .chmod loc before after ∉ effects) ∧
    (created = true → ∃ mode, .mkdir reached mode ∈ effects)

/-- A path that leads to a directory. -/
theorem created_of_status {node : FileTree.Node Bytes Bytes} {mode : Mode}
    (h : status host path s = (.ok (some (node, mode)), s')) (hdir : node = .directory) :
    Created host path false [] s s' := by
  obtain ⟨hkeeps, hfound⟩ := status_ok h
  cases hresolve : s.resolve host path with
  | error errno => simp [hresolve] at hfound
  | ok loc =>
      simp only [hresolve] at hfound
      obtain ⟨found, hnode, hfound⟩ := Option.map_eq_some_iff.mp hfound.symm
      obtain rfl : found = node := (Prod.mk.inj hfound).1
      refine ⟨loc, (resolve_congr hkeeps.tree).trans hresolve, ?_, hkeeps.makes, by simp, by simp⟩
      rw [hkeeps.tree, Tree.isDirectory_iff, hnode, hdir]

theorem createDirectories_ok {created : Bool} (h : createDirectories host path s = (.ok created, s')) :
    ∃ effects, Created host path created effects s s' := by
  induction path generalizing s s' created with
  | nil =>
      obtain ⟨found, s₁, hstatus, h⟩ := bind_ok h
      split at h
      · rename_i mode
        obtain ⟨rfl, rfl⟩ : false = created ∧ s₁ = s' := by simpa using h
        exact ⟨[], created_of_status hstatus rfl⟩
      · simp at h
      · simp at h
  | cons name path ih =>
      obtain ⟨found, s₁, hstatus, h⟩ := bind_ok h
      split at h
      · rename_i mode
        obtain ⟨rfl, rfl⟩ : false = created ∧ s₁ = s' := by simpa using h
        exact ⟨[], created_of_status hstatus rfl⟩
      · simp at h
      · obtain ⟨last, s₂, hparent, h⟩ := bind_ok h
        obtain ⟨_, s₃, hmkdir, h⟩ := bind_ok h
        obtain ⟨rfl, rfl⟩ : true = created ∧ s₃ = s' := by simpa using h
        obtain ⟨hkeeps, -⟩ := status_ok hstatus
        obtain ⟨effects, above, habove, -, hmakes, hquiet, -⟩ := ih hparent
        obtain ⟨dir, mode, hdir, -, hisdir, hmakes'⟩ := mkdir_ok hmkdir
        obtain rfl : above = dir := by simpa [habove] using hdir
        have hstart : Makes above [] s s₁ := hkeeps.makes
        have hboth := hmakes.trans hmakes' (List.suffix_cons _ _) hquiet
        have hall := hstart.trans hboth (List.suffix_cons _ _) (by simp)
        refine ⟨_, name :: above, ?_, hisdir, hall, ?_, fun _ => ⟨mode, by simp⟩⟩
        · exact resolve_entry (resolve_extends hmakes'.grows habove) (.inl hisdir)
        · intro l before after
          simp [hquiet l before after]

theorem makeDirs_ok (h : makeDirs host path true s = (.ok (), s')) :
    ∃ reached effects, s'.resolve host path = .ok reached ∧ s'.tree.isDirectory reached = true ∧
      Makes reached effects s s' := by
  obtain ⟨created, s₁, hcreate, h⟩ := bind_ok h
  obtain ⟨effects, reached, hreached, hdir, hmakes, hquiet, hmkdir⟩ := createDirectories_ok (mapError_ok hcreate)
  cases created with
  | false =>
      obtain rfl : s₁ = s' := by simpa using h
      exact ⟨reached, effects, hreached, hdir, hmakes⟩
  | true =>
      rw [if_pos rfl] at h
      have hset := setSharedPermissions_ok hreached (s₁.tree.node_ne_none_of_isDirectory hdir) h
      refine ⟨reached, effects ++ [_], ?_, ?_, ⟨hmakes.toChanges.trans hset.toChanges, ?_, ?_, ?_, ?_, ?_⟩⟩
      · rw [resolve_congr hset.tree, hreached]
      · rw [hset.tree, hdir]
      · rw [hset.tree]
        exact hmakes.grows
      · intro l hl
        rw [hset.tree] at hl
        obtain ⟨mode, hmkdir⟩ := hmakes.added l hl
        exact ⟨mode, List.mem_append_left _ hmkdir⟩
      · intro effect heffect
        rcases List.mem_append.mp heffect with hmem | hmem
        · exact hmakes.above effect hmem
        · obtain rfl := List.mem_singleton.mp hmem
          exact ⟨reached, rfl, List.suffix_rfl⟩
      · intro l before after hl
        rcases List.mem_append.mp hl with hmem | hmem
        · exact absurd hmem (hquiet l before after)
        · obtain ⟨rfl, -, -⟩ : l = reached ∧ before = _ ∧ after = _ := by simpa using hmem
          obtain ⟨mode, hmode⟩ := hmkdir rfl
          exact ⟨rfl, mode, List.mem_append_left _ hmode⟩
      · intro l mode hl
        rcases List.mem_append.mp hl with hmem | hmem
        · exact hmakes.mkdirs l mode hmem
        · simp at hmem

end

/-! ### Writing a file -/

/-- The mode of a file after it was opened for writing. -/
def openedMode (host : Host) (s : Files) (file : Location Bytes) : Mode :=
  if (s.tree.node file).isNone then 0o666 &&& ~~~host.umask else s.mode file

def openEffects (host : Host) (s : Files) (file : Location Bytes) : List Effect :=
  if (s.tree.node file).isNone then [.create file (0o666 &&& ~~~host.umask)] else []

/-- The tree has a file at the location, with new contents, and is the same elsewhere. -/
structure WritesAt (file : Location Bytes) (s s' : Files) : Prop where
  isFile : s'.tree.isFile file = true
  grows : s.tree.Extends s'.tree
  others : ∀ loc, loc ≠ file → s'.tree.node loc = s.tree.node loc

section

variable {host : Host} {s s' t : Files} {path : List Bytes} {file : Location Bytes} {data : Bytes}

theorem sharedMode_file (before : Mode) : sharedMode false before = 0o664 := by simp [sharedMode]

theorem sharedMode_directory (before : Mode) : sharedMode true before = 0o775 ||| before &&& setGid := by
  simp [sharedMode]

theorem WritesAt.trans (h : WritesAt file s t) (h' : WritesAt file t s') : WritesAt file s s' where
  isFile := h'.isFile
  grows := h.grows.trans h'.grows
  others := fun loc hloc => (h'.others loc hloc).trans (h.others loc hloc)

/-- What is opened for writing was not a directory before. -/
theorem WritesAt.isDirectory (h : WritesAt file s s') (loc : Location Bytes) :
    s'.tree.isDirectory loc = s.tree.isDirectory loc := by
  by_cases heq : loc = file
  · have hbefore : s.tree.isDirectory loc ≠ true := by
      intro hdir
      have hafter := h.grows.isDirectory hdir
      rw [heq, isDirectory_eq_false_of_isFile h.isFile] at hafter
      simp at hafter
    rw [heq, isDirectory_eq_false_of_isFile h.isFile, ← heq, Bool.eq_false_of_not_eq_true hbefore]
  · rw [Tree.isDirectory, Tree.isDirectory, h.others loc heq]

theorem WritesAt.keeps {effects : List Effect} (h : WritesAt file s t) (h' : Keeps effects t s') :
    WritesAt file s s' := by
  constructor
  · rw [h'.tree, h.isFile]
  · rw [h'.tree]
    exact h.grows
  · rw [h'.tree]
    exact h.others

theorem writesAt_write (hfile : s.tree.isFile file = true) (calls : Nat) :
    WritesAt file s { s with tree := s.tree.write file data, calls := calls } where
  isFile := (Tree.extends_write s.tree file data).isFile hfile
  grows := Tree.extends_write s.tree file data
  others := by
    intro loc hloc
    simp [Tree.node_write, hloc]

theorem openWrite_ok (h : openWrite host path s = (.ok file, s')) :
    s.opened host path = some file ∧ WritesAt file s s' ∧ Changes (openEffects host s file) s s' := by
  have hcall := syscall_ok h
  have hopened : Files.opened host { s with calls := s.calls + 1 } path = s.opened host path := rfl
  rw [hopened] at hcall
  cases hfound : s.opened host path with
  | none =>
      rw [hfound] at hcall
      exact absurd hcall throw_ne_ok
  | some loc =>
      rw [hfound] at hcall
      cases loc with
      | nil => exact absurd hcall throw_ne_ok
      | cons name dir =>
          simp only at hcall
          split at hcall
          · rename_i hnew
            obtain ⟨rfl, rfl⟩ : name :: dir = file ∧ _ = s' := by simpa [Pure.pure, Except.pure] using hcall
            refine ⟨rfl, ⟨?_, ?_, ?_⟩, ?_⟩
            · simp [Files.record, Tree.isFile, Tree.node_create]
            · exact Tree.extends_create s.tree name dir (.file []) hnew.1 hnew.2
            · intro loc hloc
              simp [Files.record, Tree.node_create, hloc]
            · rw [openEffects, if_pos hnew.2]
              exact ⟨rfl, rfl⟩
          · rename_i hold
            obtain ⟨rfl, rfl⟩ : name :: dir = file ∧ _ = s' := by simpa [Pure.pure, Except.pure] using hcall
            have hfile : s.tree.isFile (name :: dir) = true := by
              rcases Tree.openable_of_opened hfound with hfile | ⟨hnone, name', dir', heq, hdir⟩
              · exact hfile
              · obtain ⟨rfl, rfl⟩ := List.cons.inj heq
                exact absurd ⟨hdir, by simp [hnone]⟩ hold
            have hsome : (s.tree.node (name :: dir)).isNone = false := by
              rw [Option.isNone_eq_false_iff, Option.isSome_iff_ne_none]
              exact node_ne_none_of_isFile hfile
            refine ⟨rfl, writesAt_write hfile _, ?_⟩
            rw [openEffects, hsome]
            exact ⟨by simp, rfl⟩

theorem write_ok (hfile : s.tree.isFile file = true) (h : write host file data s = (.ok (), s')) :
    WritesAt file s s' ∧ Changes [] s s' := by
  have hcall := syscall_ok h
  obtain rfl : _ = s' := by simpa [Pure.pure, Except.pure] using hcall
  exact ⟨writesAt_write hfile _, ⟨by simp, rfl⟩⟩

theorem writeFileSync_ok (h : writeFileSync host path data true s = (.ok (), s')) :
    ∃ file, s.opened host path = some file ∧ WritesAt file s s' ∧
      Changes (openEffects host s file ++ [.chmod file (openedMode host s file) 0o664, .fsync file]) s s' := by
  obtain ⟨file, s₁, hopen, h⟩ := bind_ok h
  obtain ⟨_, s₂, hwrite, h⟩ := bind_ok h
  obtain ⟨_, s₃, hclose, h⟩ := bind_ok h
  obtain ⟨_, s₄, hset, h⟩ := bind_ok h
  obtain ⟨hopened, hat, hchanges⟩ := openWrite_ok (mapError_ok hopen)
  obtain ⟨hat', hchanges'⟩ := write_ok hat.isFile (mapError_ok hwrite)
  have hclosed := close_ok (mapError_ok hclose)
  have hall := (hat.trans hat').keeps hclosed
  have hreached : s₃.resolve host path = .ok file := by
    obtain ⟨left, hleft⟩ := Tree.walk_of_opened hall.grows hopened hall.isFile
    exact resolve_ok.mpr ⟨left, hleft⟩
  have hset' := setSharedPermissions_ok hreached (node_ne_none_of_isFile hall.isFile) hset
  obtain ⟨loc, hloc, hsync⟩ := fsyncFile_ok h
  rw [resolve_congr hset'.tree, hreached] at hloc
  obtain rfl : file = loc := by simpa using hloc
  have hopening := hchanges.trans (hchanges'.trans hclosed.toChanges)
  have hmode : s₃.mode file = openedMode host s file := by
    rw [hopening.mode, openEffects, openedMode]
    split <;> simp [Effect.apply]
  rw [hmode, sharedMode_file] at hset'
  have hend := hset'.trans hsync
  refine ⟨file, hopened, hall.keeps hend, ?_⟩
  simpa using hopening.trans hend.toChanges

/-! ### Moving a directory -/

theorem rename_ok {name name' : Bytes} {path' : List Bytes}
    (h : rename host (name :: path) (name' :: path') s = (.ok (), s')) :
    ∃ dir dir', s.resolve host path = .ok dir ∧ s.resolve host path' = .ok dir' ∧
      Changes [.rename (name :: dir) (name' :: dir')] s s' ∧
      (s.tree.isDirectory (name :: dir) = true → ¬ name :: dir <:+ dir' ∧
        ∀ l, s'.tree.node (l ++ name' :: dir') = s.tree.node (l ++ name :: dir)) := by
  rw [rename] at h
  obtain ⟨dir, hdir, hcall⟩ := syscall_resolve_ok h
  cases hdir' : s.resolve host path' with
  | error errno => simp [resolve_calls, hdir', Bind.bind, Except.bind] at hcall
  | ok dir' =>
      simp only [resolve_calls, hdir', Bind.bind, Except.bind] at hcall
      refine ⟨dir, dir', hdir, rfl, ?_⟩
      have hmoved (hisdir : s.tree.isDirectory dir' = true)
          (hout : s.tree.isDirectory (name :: dir) = true → ¬ name :: dir <:+ dir')
          (hs' : (pure ((), Files.record { s with tree := s.tree.move name dir name' dir', calls := s.calls + 1 }
            (.rename (name :: dir) (name' :: dir'))) : Except Errno (Unit × Files)) = .ok ((), s')) :
          Changes [.rename (name :: dir) (name' :: dir')] s s' ∧
          (s.tree.isDirectory (name :: dir) = true → ¬ name :: dir <:+ dir' ∧
            ∀ l, s'.tree.node (l ++ name' :: dir') = s.tree.node (l ++ name :: dir)) := by
        obtain rfl : _ = s' := by simpa [Pure.pure, Except.pure] using hs'
        refine ⟨⟨rfl, rfl⟩, fun hsub => ⟨hout hsub, ?_⟩⟩
        intro l
        simp [Files.record, Tree.node_move s.tree hsub hisdir (hout hsub)]
      split at hcall
      · exact absurd hcall throw_ne_ok
      split at hcall
      · exact absurd hcall throw_ne_ok
      rename_i hisdir
      have hisdir' : s.tree.isDirectory dir' = true := by simpa using hisdir
      split at hcall
      · -- the directory is already where it should go
        rename_i hsame
        obtain rfl : _ = s' := by simpa [Pure.pure, Except.pure] using hcall
        obtain ⟨rfl, rfl⟩ := List.cons.inj hsame
        exact ⟨⟨rfl, rfl⟩, fun _ => ⟨not_suffix_self, fun _ => rfl⟩⟩
      split at hcall
      · split at hcall
        · exact absurd hcall throw_ne_ok
        rename_i hout
        split at hcall
        · exact hmoved hisdir' (fun _ => hout) hcall
        split at hcall
        · exact absurd hcall throw_ne_ok
        split at hcall
        · exact hmoved hisdir' (fun _ => hout) hcall
        · exact absurd hcall throw_ne_ok
      · rename_i hnotdir
        split at hcall
        · exact absurd hcall throw_ne_ok
        · exact hmoved hisdir' (fun hsub => absurd hsub hnotdir) hcall

theorem rename_error {path' : List Bytes} {errno : Errno} (h : rename host path path' s = (.error errno, s')) :
    Keeps [] s s' := by
  have hthrow : (FileIo.throw Errno.invalid : FileIo Errno Unit) s = (.error errno, s') → Keeps [] s s' := by
    intro hthrow
    obtain ⟨-, rfl⟩ : _ = errno ∧ s = s' := by simpa using hthrow
    exact Keeps.refl s
  cases path with
  | nil => exact hthrow h
  | cons name parent =>
      cases path' with
      | nil => exact hthrow h
      | cons name' parent' =>
          rw [rename] at h
          exact syscall_error h

end

end DeepJit.Permissions
