import DeepJit.Utils.PermissionsUpdates

/-!
# Runs without sharing and runs without faults

When nothing is shared, no function sets a mode, however it ends. When no call of the operating system
fails for a reason of its own, the functions return, and `fsync_dir` comes to the end of every tree.
-/

namespace DeepJit.Permissions

open FileTree (Location Tree)

/-! ### Without sharing -/

def IsChmod : Effect → Prop
  | .chmod _ _ _ => True
  | .mkdir _ _ | .create _ _ | .fsync _ | .rename _ _ => False

/-- No mode was set between two states. -/
def Quiet (s s' : Files) : Prop :=
  ∃ effects, s'.log = s.log ++ effects ∧ ∀ effect ∈ effects, ¬ IsChmod effect

/-- A computation that sets no mode, whether it returns or throws. -/
def Silent {ε α : Type} (x : FileIo ε α) : Prop := ∀ s, Quiet s (x s).2

section

variable {ε ε' α β : Type} {host : Host} {s s' t : Files} {path : List Bytes}

theorem quiet_of_log (h : s'.log = s.log) : Quiet s s' := ⟨[], by simp [h], by simp⟩

theorem Quiet.trans (h : Quiet s t) (h' : Quiet t s') : Quiet s s' := by
  obtain ⟨effects, hlog, hquiet⟩ := h
  obtain ⟨effects', hlog', hquiet'⟩ := h'
  refine ⟨effects ++ effects', by rw [hlog', hlog, List.append_assoc], ?_⟩
  intro effect heffect
  rcases List.mem_append.mp heffect with hmem | hmem
  · exact hquiet effect hmem
  · exact hquiet' effect hmem

theorem quiet_record {effect : Effect} (hlog : t.log = s.log) (heffect : ¬ IsChmod effect) :
    Quiet s (t.record effect) :=
  ⟨[effect], by simp [Files.record, hlog], by simpa using heffect⟩

theorem silent_pure (value : α) : Silent (pure value : FileIo ε α) := fun _ => quiet_of_log rfl

theorem silent_throw (error : ε) : Silent (FileIo.throw error : FileIo ε α) := fun _ => quiet_of_log rfl

theorem quiet_bind {x : FileIo ε α} {f : α → FileIo ε β} (hx : Silent x)
    (hf : ∀ value t, x s = (.ok value, t) → Quiet t (f value t).2) : Quiet s ((x >>= f) s).2 := by
  have hstart := hx s
  cases heq : x s with
  | mk outcome t =>
      rw [heq] at hstart
      cases outcome with
      | ok value =>
          rw [bind_of_ok heq]
          exact hstart.trans (hf value t heq)
      | error error =>
          rw [bind_of_error heq]
          exact hstart

theorem Silent.bind {x : FileIo ε α} {f : α → FileIo ε β} (hx : Silent x) (hf : ∀ value, Silent (f value)) :
    Silent (x >>= f) :=
  fun _ => quiet_bind hx fun value t _ => hf value t

theorem Silent.mapError {x : FileIo ε α} (hx : Silent x) (f : ε → ε') : Silent (x.mapError f) := by
  intro s
  have hstart := hx s
  rw [FileIo.mapError]
  split <;> (rename_i heq; rw [heq] at hstart; exact hstart)

theorem Silent.attempt {x : FileIo ε α} (hx : Silent x) : Silent (x.attempt : FileIo ε' (Except ε α)) :=
  fun s => hx s

theorem silent_syscall {f : Files → Except Errno (α × Files)}
    (h : ∀ s value s', f s = .ok (value, s') → Quiet s s') : Silent (syscall host f) := by
  intro s
  have hcalls : Quiet s { s with calls := s.calls + 1 } := quiet_of_log rfl
  rw [syscall]
  split
  · exact hcalls
  · split
    · rename_i heq
      exact hcalls.trans (h _ _ _ heq)
    · exact hcalls

/-- A call that only reads. -/
theorem silent_read {f : Files → Except Errno β} {g : Files → β → α} :
    Silent (syscall host fun s => do
      let found ← f s
      return (g s found, s)) := by
  apply silent_syscall
  intro s value s' h
  cases hf : f s with
  | error errno => simp [hf, Bind.bind, Except.bind] at h
  | ok found =>
      obtain ⟨-, rfl⟩ : g s found = value ∧ s = s' := by
        simpa [hf, Bind.bind, Except.bind, Pure.pure, Except.pure] using h
      exact quiet_of_log rfl

theorem silent_fsyncFile : Silent (fsyncFile host path) := by
  refine Silent.bind (Silent.mapError (silent_read (g := fun _ loc => loc)) _) fun fd => ?_
  refine Silent.bind (Silent.mapError (silent_syscall ?_) _) fun _ => ?_
  · intro s value s' h
    obtain rfl : _ = s' := by simpa [Pure.pure, Except.pure] using h
    exact quiet_record rfl (by simp [IsChmod])
  · refine Silent.mapError (silent_syscall ?_) _
    intro s value s' h
    obtain rfl : s = s' := by simpa [Pure.pure, Except.pure] using h
    exact quiet_of_log rfl

theorem silent_status : Silent (status host path) := by
  apply silent_syscall
  intro s value s' h
  split at h
  all_goals
    obtain ⟨-, rfl⟩ : _ = value ∧ s = s' := by simpa [Pure.pure, Except.pure] using h
    exact quiet_of_log rfl

theorem silent_setSharedPermissions {directory : Bool} : Silent (setSharedPermissions host path directory false) :=
  silent_pure ()

theorem silent_readDirectory : Silent (readDirectory host path) := by
  apply silent_syscall
  intro s value s' h
  cases hloc : s.resolve host path with
  | error errno => simp [hloc, Bind.bind, Except.bind] at h
  | ok loc =>
      simp only [hloc, Bind.bind, Except.bind] at h
      split at h
      · obtain ⟨-, rfl⟩ : _ = value ∧ s = s' := by simpa [Pure.pure, Except.pure] using h
        exact quiet_of_log rfl
      · exact absurd h throw_ne_ok

theorem silent_fsyncEntry {recurse : List Bytes → FileIo Failure Unit} {name : Bytes}
    (hrecurse : ∀ path, Silent (recurse path)) : Silent (fsyncEntry host false recurse path name) := by
  apply Silent.bind (Silent.mapError (silent_read (g := fun s loc => s.tree.node (name :: loc))) _)
  intro found
  cases found with
  | none => exact silent_pure ()
  | some node =>
      cases node with
      | directory => exact hrecurse (name :: path)
      | link target => exact silent_pure ()
      | file content => exact Silent.bind silent_setSharedPermissions fun _ => silent_fsyncFile

theorem silent_forM {f : α → FileIo ε Unit} (hf : ∀ item, Silent (f item)) (items : List α) :
    Silent (items.forM f) := by
  induction items with
  | nil => exact silent_pure ()
  | cons item items ih => exact Silent.bind (hf item) fun _ => ih

theorem silent_fsyncDirWith (fuel : Nat) : Silent (fsyncDirWith host false fuel path) := by
  induction fuel generalizing path with
  | zero => exact silent_throw _
  | succ fuel ih =>
      apply Silent.bind silent_setSharedPermissions
      intro _
      apply Silent.bind (Silent.mapError silent_readDirectory _)
      intro names
      apply Silent.bind (silent_forM (fun name => silent_fsyncEntry fun path => ih) names)
      exact fun _ => silent_fsyncFile

theorem silent_fsyncDir : Silent (fsyncDir host path false) := fun s => silent_fsyncDirWith _ s

theorem silent_mkdir : Silent (mkdir host path) := by
  cases path with
  | nil => exact silent_throw _
  | cons name parent =>
      rw [mkdir]
      apply silent_syscall
      intro s value s' h
      cases hdir : s.resolve host parent with
      | error errno => simp [hdir, Bind.bind, Except.bind] at h
      | ok dir =>
          simp only [hdir, Bind.bind, Except.bind] at h
          split at h
          · obtain rfl : _ = s' := by simpa [Pure.pure, Except.pure] using h
            exact quiet_record rfl (by simp [IsChmod])
          · exact absurd h throw_ne_ok

theorem silent_createDirectories : Silent (createDirectories host path) := by
  induction path with
  | nil =>
      apply Silent.bind silent_status
      intro found
      split
      · exact silent_pure _
      · exact silent_throw _
      · exact silent_throw _
  | cons name path ih =>
      apply Silent.bind silent_status
      intro found
      split
      · exact silent_pure _
      · exact silent_throw _
      · exact Silent.bind ih fun _ => Silent.bind silent_mkdir fun _ => silent_pure _

theorem silent_makeDirs : Silent (makeDirs host path false) := by
  apply Silent.bind (Silent.mapError silent_createDirectories _)
  intro created
  cases created with
  | false => exact silent_pure _
  | true => exact @silent_setSharedPermissions host path true

theorem silent_openWrite : Silent (openWrite host path) := by
  apply silent_syscall
  intro s value s' h
  split at h
  · exact absurd h throw_ne_ok
  · exact absurd h throw_ne_ok
  · split at h
    · obtain ⟨-, rfl⟩ : _ = value ∧ _ = s' := by simpa [Pure.pure, Except.pure] using h
      exact quiet_record rfl (by simp [IsChmod])
    · obtain ⟨-, rfl⟩ : _ = value ∧ _ = s' := by simpa [Pure.pure, Except.pure] using h
      exact quiet_of_log rfl

theorem silent_writeFileSync {data : Bytes} : Silent (writeFileSync host path data false) := by
  apply Silent.bind (Silent.mapError silent_openWrite _)
  intro output
  refine Silent.bind (Silent.mapError (silent_syscall ?_) _) fun _ => ?_
  · intro s value s' h
    obtain rfl : _ = s' := by simpa [Pure.pure, Except.pure] using h
    exact quiet_of_log rfl
  refine Silent.bind (Silent.mapError (silent_syscall ?_) _) fun _ => ?_
  · intro s value s' h
    obtain rfl : s = s' := by simpa [Pure.pure, Except.pure] using h
    exact quiet_of_log rfl
  exact Silent.bind silent_setSharedPermissions fun _ => silent_fsyncFile

theorem Keeps.quiet (h : Keeps [] s s') : Quiet s s' := quiet_of_log (by simpa using h.log)

theorem silent_rename {path' : List Bytes} : Silent (rename host path path') := by
  intro s
  cases h : rename host path path' s with
  | mk outcome s' =>
      cases outcome with
      | error errno => exact (rename_error h).quiet
      | ok _ =>
          cases path with
          | nil => simp [rename] at h
          | cons name parent =>
              cases path' with
              | nil => simp [rename] at h
              | cons name' parent' =>
                  obtain ⟨dir, dir', -, -, hchanges, -⟩ := rename_ok h
                  exact ⟨_, hchanges.log, by simp [IsChmod]⟩

end

/-! ### Without faults -/

/-- The computation returns. -/
def Returns {ε α : Type} (x : FileIo ε α) (s : Files) : Prop := ∃ value s', x s = (.ok value, s')

section

variable {ε ε' α β : Type} {host : Host} {s t : Files} {path : List Bytes} {loc : Location Bytes}

theorem returns_pure (value : α) : Returns (pure value : FileIo ε α) s := ⟨value, s, rfl⟩

theorem returns_bind {x : FileIo ε α} {f : α → FileIo ε β} {value : α} (h : x s = (.ok value, t))
    (hf : Returns (f value) t) : Returns (x >>= f) s := by
  obtain ⟨result, s', h'⟩ := hf
  exact ⟨result, s', by rw [bind_of_ok h, h']⟩

theorem Returns.mapError {x : FileIo ε α} (h : Returns x s) (f : ε → ε') : Returns (x.mapError f) s := by
  obtain ⟨value, s', h⟩ := h
  exact ⟨value, s', mapError_of_ok h⟩

theorem returns_syscall {f : Files → Except Errno (α × Files)} (hfault : ∀ n, host.fault n = none)
    (h : ∃ value t, f { s with calls := s.calls + 1 } = .ok (value, t)) : Returns (syscall host f) s := by
  obtain ⟨value, t, h⟩ := h
  exact ⟨value, t, syscall_of_ok (hfault _) h⟩

theorem returns_openRead (hfault : ∀ n, host.fault n = none) (hloc : s.resolve host path = .ok loc) :
    Returns (openRead host path) s := by
  refine returns_syscall hfault ?_
  rw [resolve_calls, hloc]
  exact ⟨_, _, rfl⟩

theorem returns_fsyncFile (hfault : ∀ n, host.fault n = none) (hloc : s.resolve host path = .ok loc) :
    Returns (fsyncFile host path) s := by
  obtain ⟨fd, s₁, hopen⟩ := (returns_openRead hfault hloc).mapError
    fun errno => Failure.panic "failed to open for fsync" path (some errno)
  refine returns_bind hopen ?_
  obtain ⟨_, s₂, hsync⟩ := (returns_syscall hfault ⟨_, _, rfl⟩ : Returns (fsync host fd) s₁).mapError
    fun errno => Failure.panic "failed to fsync" path (some errno)
  refine returns_bind hsync ?_
  exact (returns_syscall hfault ⟨_, _, rfl⟩ : Returns (close host) s₂).mapError _

theorem returns_status (hfault : ∀ n, host.fault n = none) : Returns (status host path) s := by
  cases hloc : s.resolve host path with
  | error errno =>
      refine returns_syscall hfault ?_
      rw [resolve_calls, hloc]
      exact ⟨_, _, rfl⟩
  | ok loc =>
      refine returns_syscall hfault ?_
      rw [resolve_calls, hloc]
      exact ⟨_, _, rfl⟩

theorem returns_setSharedPermissions (hfault : ∀ n, host.fault n = none) (hloc : s.resolve host path = .ok loc)
    (directory shared : Bool) : Returns (setSharedPermissions host path directory shared) s := by
  have hchmod {t : Files} (ht : t.tree = s.tree) (mode : Mode) : Returns (chmod host path mode) t := by
    refine returns_syscall hfault ?_
    rw [resolve_calls, resolve_congr ht, hloc]
    exact ⟨_, _, rfl⟩
  cases shared with
  | false => exact returns_pure ()
  | true =>
      cases directory with
      | false => exact (hchmod rfl _).mapError _
      | true =>
          obtain ⟨found, s₁, hstatus⟩ : Returns (status host path) s := returns_status hfault
          refine returns_bind (mapError_of_ok hstatus) ?_
          exact (hchmod (status_ok hstatus).1.tree _).mapError _

theorem returns_fsyncEntry {recurse : List Bytes → FileIo Failure Unit} {name : Bytes}
    (hfault : ∀ n, host.fault n = none) (hloc : s.resolve host path = .ok loc)
    (hdir : ∀ {t : Files}, t.tree = s.tree → s.tree.isDirectory (name :: loc) = true →
      Returns (recurse (name :: path)) t) : Returns (fsyncEntry host true recurse path name) s := by
  have hstatus : Returns (symlinkStatus host path name) s := by
    refine returns_syscall hfault ?_
    rw [resolve_calls, hloc]
    exact ⟨_, _, rfl⟩
  obtain ⟨found, s₁, hstatus⟩ := hstatus
  obtain ⟨rfl, hkeeps⟩ := symlinkStatus_ok hloc hstatus
  refine returns_bind (mapError_of_ok hstatus) ?_
  cases hnode : s.tree.node (name :: loc) with
  | none => exact returns_pure ()
  | some node =>
      cases node with
      | link target => exact returns_pure ()
      | directory => exact hdir hkeeps.tree (s.tree.isDirectory_iff.mpr hnode)
      | file content =>
          have hfile : s.tree.isFile (name :: loc) = true := s.tree.isFile_iff.mpr ⟨content, hnode⟩
          have hreached : s₁.resolve host (name :: path) = .ok (name :: loc) :=
            (resolve_congr hkeeps.tree).trans (resolve_entry hloc (.inr hfile))
          obtain ⟨_, s₂, hset⟩ := returns_setSharedPermissions hfault hreached false true
          refine returns_bind hset ?_
          have hset' := setSharedPermissions_ok hreached (by rw [hkeeps.tree, hnode]; simp) hset
          exact returns_fsyncFile hfault ((resolve_congr hset'.tree).trans hreached)

theorem returns_fsyncEntries {recurse : List Bytes → FileIo Failure Unit} {names : List Bytes}
    (hfault : ∀ n, host.fault n = none) (hloc : s.resolve host path = .ok loc)
    (hdir : ∀ {name : Bytes} {t : Files}, t.tree = s.tree → s.tree.isDirectory (name :: loc) = true →
      Returns (recurse (name :: path)) t)
    (hsync : ∀ {name : Bytes} {t t' : Files}, t.tree = s.tree → s.tree.isDirectory (name :: loc) = true →
      recurse (name :: path) t = (.ok (), t') → SyncsAt t t' fun l => name :: loc <:+ l) :
    Returns (names.forM (fsyncEntry host true recurse path)) s := by
  induction names generalizing s with
  | nil => exact returns_pure ()
  | cons name names ih =>
      obtain ⟨_, s₁, hentry⟩ := returns_fsyncEntry hfault hloc hdir
      obtain ⟨effects, hkeeps, -⟩ := fsyncEntry_ok hloc hsync hentry
      refine returns_bind hentry (ih ((resolve_congr hkeeps.tree).trans hloc) ?_ ?_)
      · intro name t ht hisdir
        rw [hkeeps.tree] at ht hisdir
        exact hdir ht hisdir
      · intro name t t' ht hisdir hcall
        rw [hkeeps.tree] at ht hisdir
        exact hsync ht hisdir hcall

/-- The recursion needs no more than what the depth of the tree leaves below a directory. -/
theorem returns_fsyncDirWith {fuel : Nat} (hfault : ∀ n, host.fault n = none) (hloc : s.resolve host path = .ok loc)
    (hdir : s.tree.isDirectory loc = true) (hfuel : s.tree.depth < fuel + loc.length) :
    Returns (fsyncDirWith host true fuel path) s := by
  induction fuel generalizing s path loc with
  | zero =>
      have hle := s.tree.length_le (s.tree.node_ne_none_of_isDirectory hdir)
      omega
  | succ fuel ih =>
      rw [fsyncDirWith]
      obtain ⟨_, s₁, hset⟩ := returns_setSharedPermissions hfault hloc true true
      refine returns_bind hset ?_
      have hset' := setSharedPermissions_ok hloc (s.tree.node_ne_none_of_isDirectory hdir) hset
      have hloc₁ : s₁.resolve host path = .ok loc := (resolve_congr hset'.tree).trans hloc
      have hread : Returns (readDirectory host path) s₁ := by
        refine returns_syscall hfault ?_
        rw [resolve_calls, hloc₁]
        simp only [Bind.bind, Except.bind]
        rw [if_pos (by rw [hset'.tree, hdir])]
        exact ⟨_, _, rfl⟩
      obtain ⟨names, s₂, hread⟩ := hread
      refine returns_bind (mapError_of_ok hread) ?_
      obtain ⟨rfl, hread'⟩ := readDirectory_ok hloc₁ hread
      have htree : s₂.tree = s.tree := hread'.tree.trans hset'.tree
      have hloc₂ : s₂.resolve host path = .ok loc := (resolve_congr hread'.tree).trans hloc₁
      have hchild {name : Bytes} {t : Files} (ht : t.tree = s₂.tree)
          (hisdir : s₂.tree.isDirectory (name :: loc) = true) :
          t.resolve host (name :: path) = .ok (name :: loc) :=
        (resolve_congr ht).trans (resolve_entry hloc₂ (.inl hisdir))
      have hentries :
          Returns ((s₁.tree.entries loc).forM (fsyncEntry host true (fsyncDirWith host true fuel) path)) s₂ := by
        apply returns_fsyncEntries hfault hloc₂
        · intro name t ht hisdir
          apply ih (hchild ht hisdir) (ht ▸ hisdir)
          rw [ht, htree, List.length_cons]
          omega
        · intro name t t' ht hisdir hcall
          exact fsyncDirWith_ok (hchild ht hisdir) (ht ▸ hisdir) hcall
      obtain ⟨_, s₃, hentries⟩ := hentries
      refine returns_bind hentries ?_
      obtain ⟨effects, hkeeps, -⟩ := fsyncEntries_ok (s₁.tree.nodup_entries loc) hloc₂
        (fun ht hisdir hcall => fsyncDirWith_ok (hchild ht hisdir) (ht ▸ hisdir) hcall) hentries
      exact returns_fsyncFile hfault ((resolve_congr hkeeps.tree).trans hloc₂)

theorem returns_fsyncDir (hfault : ∀ n, host.fault n = none) (hloc : s.resolve host path = .ok loc)
    (hdir : s.tree.isDirectory loc = true) : Returns (fsyncDir host path true) s :=
  returns_fsyncDirWith hfault hloc hdir (by omega)

theorem returns_writeFileSync {file : Location Bytes} {data : Bytes} (hfault : ∀ n, host.fault n = none)
    (hopened : s.opened host path = some file) : Returns (writeFileSync host path data true) s := by
  have hopen : Returns (openWrite host path) s := by
    refine returns_syscall hfault ?_
    have hsame : Files.opened host { s with calls := s.calls + 1 } path = s.opened host path := rfl
    rw [hsame, hopened]
    cases file with
    | nil =>
        rcases Tree.openable_of_opened hopened with hfile | ⟨hnone, -⟩
        · simp [Tree.isFile, s.tree.node_root] at hfile
        · simp [s.tree.node_root] at hnone
    | cons name dir =>
        simp only
        split <;> exact ⟨_, _, rfl⟩
  obtain ⟨file', s₁, hopen⟩ := hopen
  obtain ⟨hopened', hat, -⟩ := openWrite_ok hopen
  obtain rfl : file = file' := by simpa [hopened] using hopened'
  refine returns_bind (mapError_of_ok hopen) ?_
  obtain ⟨_, s₂, hwrite⟩ : Returns (write host file data) s₁ := returns_syscall hfault ⟨_, _, rfl⟩
  refine returns_bind (mapError_of_ok hwrite) ?_
  obtain ⟨_, s₃, hclose⟩ : Returns (close host) s₂ := returns_syscall hfault ⟨_, _, rfl⟩
  refine returns_bind (mapError_of_ok hclose) ?_
  have hall := (hat.trans (write_ok hat.isFile hwrite).1).keeps (close_ok hclose)
  have hreached : s₃.resolve host path = .ok file := by
    obtain ⟨left, hleft⟩ := Tree.walk_of_opened hall.grows hopened hall.isFile
    exact resolve_ok.mpr ⟨left, hleft⟩
  obtain ⟨_, s₄, hset⟩ := returns_setSharedPermissions hfault hreached false true
  refine returns_bind hset ?_
  have hset' := setSharedPermissions_ok hreached (node_ne_none_of_isFile hall.isFile) hset
  exact returns_fsyncFile hfault ((resolve_congr hset'.tree).trans hreached)

theorem createDirectories_of_directory (hfault : ∀ n, host.fault n = none) (hloc : s.resolve host path = .ok loc)
    (hdir : s.tree.isDirectory loc = true) :
    ∃ s', createDirectories host path s = (.ok false, s') ∧ Keeps [] s s' := by
  obtain ⟨found, s₁, hstatus⟩ : Returns (status host path) s := returns_status hfault
  obtain ⟨hkeeps, hfound⟩ := status_ok hstatus
  simp only [hloc, s.tree.isDirectory_iff.mp hdir, Option.map_some] at hfound
  subst hfound
  refine ⟨s₁, ?_, hkeeps⟩
  cases path <;> rw [createDirectories, bind_of_ok hstatus] <;> rfl

/-- A directory that is there is left alone. -/
theorem makeDirs_of_directory (hfault : ∀ n, host.fault n = none) (hloc : s.resolve host path = .ok loc)
    (hdir : s.tree.isDirectory loc = true) (shared : Bool) :
    ∃ s', makeDirs host path shared s = (.ok (), s') ∧ Keeps [] s s' := by
  obtain ⟨s₁, hcreate, hkeeps⟩ := createDirectories_of_directory hfault hloc hdir
  refine ⟨s₁, ?_, hkeeps⟩
  rw [makeDirs, bind_of_ok (mapError_of_ok hcreate)]
  rfl

theorem resolve_missing {name : Bytes} (hloc : s.resolve host path = .ok loc)
    (hnew : s.tree.node (name :: loc) = none) : s.resolve host (name :: path) = .error .noEntry := by
  obtain ⟨left, hleft⟩ := resolve_ok.mp hloc
  rw [Files.resolve, s.tree.resolve_cons, hleft, Option.bind_some, s.tree.walk_entry_none left hnew]

/-- One directory is created in another one. -/
theorem returns_makeDirs {name : Bytes} (hfault : ∀ n, host.fault n = none) (hloc : s.resolve host path = .ok loc)
    (hdir : s.tree.isDirectory loc = true) (hnew : s.tree.node (name :: loc) = none) (shared : Bool) :
    Returns (makeDirs host (name :: path) shared) s := by
  obtain ⟨found, s₁, hstatus⟩ : Returns (status host (name :: path)) s := returns_status hfault
  obtain ⟨hkeeps, hfound⟩ := status_ok hstatus
  simp only [resolve_missing hloc hnew] at hfound
  subst hfound
  have hloc₁ : s₁.resolve host path = .ok loc := (resolve_congr hkeeps.tree).trans hloc
  obtain ⟨s₂, hparent, hkeeps'⟩ := createDirectories_of_directory hfault hloc₁ (by rw [hkeeps.tree, hdir])
  have htree : s₂.tree = s.tree := hkeeps'.tree.trans hkeeps.tree
  have hmkdir : Returns (mkdir host (name :: path)) s₂ := by
    rw [mkdir]
    refine returns_syscall hfault ?_
    rw [resolve_calls, resolve_congr hkeeps'.tree, hloc₁]
    simp only [Bind.bind, Except.bind]
    rw [dif_pos (by simp [htree, hdir, hnew])]
    exact ⟨_, _, rfl⟩
  obtain ⟨_, s₃, hmkdir⟩ := hmkdir
  have hcreate : createDirectories host (name :: path) s = (.ok true, s₃) := by
    rw [createDirectories, bind_of_ok hstatus]
    show (createDirectories host path >>= fun _ => mkdir host (name :: path) >>= fun _ => pure true) s₁ = _
    rw [bind_of_ok hparent, bind_of_ok hmkdir]
    rfl
  refine returns_bind (mapError_of_ok hcreate) ?_
  obtain ⟨effects, reached, hreached, -⟩ := createDirectories_ok hcreate
  exact returns_setSharedPermissions hfault hreached true shared

theorem returns_rename {name name' : Bytes} {path' : List Bytes} {dir dir' : Location Bytes}
    (hfault : ∀ n, host.fault n = none) (hdir : s.resolve host path = .ok dir)
    (hdir' : s.resolve host path' = .ok dir')
    (hsource : s.tree.isDirectory (name :: dir) = true) (hparent : s.tree.isDirectory dir' = true)
    (hnew : s.tree.node (name' :: dir') = none) (hout : ¬ name :: dir <:+ dir') :
    Returns (rename host (name :: path) (name' :: path')) s := by
  rw [rename]
  refine returns_syscall hfault ?_
  have hne : name :: dir ≠ name' :: dir' := by
    intro heq
    simp [heq, Tree.isDirectory, hnew] at hsource
  have hthere : (s.tree.node (name :: dir)).isNone = false := by
    rw [s.tree.isDirectory_iff.mp hsource]
    rfl
  simp only [resolve_calls, hdir, hdir', Bind.bind, Except.bind]
  rw [if_neg (by simp [hthere]), if_neg (by simp [hparent]), if_neg hne, if_pos hsource, if_neg hout,
    if_pos (by simp [hnew])]
  exact ⟨_, _, rfl⟩

end

end DeepJit.Permissions
