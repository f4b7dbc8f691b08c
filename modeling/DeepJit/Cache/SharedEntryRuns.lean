import DeepJit.Cache.SharedEntry
import DeepJit.Utils.PermissionsRuns

/-!
# The tasks of a shared entry

Which states the task of `entry` and the one of `commit` go through, and what they record. Without the
SGID bit of the root neither of them sets a mode.
-/

namespace DeepJit.Permissions

open FileTree (Location Tree)

/-- The files with an empty record. -/
def Files.started (s : Files) : Files := { s with log := [] }

section

variable {host : Host} {s s' : Files} {root source target : List Bytes} {uuid : Bytes}
  {src : Location Bytes} {shared : Bool}

theorem Quiet.not_isChmod (h : Quiet s.started s') : ∀ effect ∈ s'.log, ¬ IsChmod effect := by
  obtain ⟨effects, hlog, hquiet⟩ := h
  rw [hlog, Files.started, List.nil_append]
  exact hquiet

/-- The path leads to a directory, and its last name is not a link to one. -/
def EntryAt (host : Host) (s : Files) (source : List Bytes) (src : Location Bytes) : Prop :=
  ∃ name parent dir, source = name :: parent ∧ src = name :: dir ∧ s.resolve host parent = .ok dir ∧
    s.tree.isDirectory src = true

theorem EntryAt.resolve (h : EntryAt host s source src) : s.resolve host source = .ok src := by
  obtain ⟨name, parent, dir, rfl, rfl, hdir, hisdir⟩ := h
  exact resolve_entry hdir (.inl hisdir)

/-! ### Setting up -/

/-- The SGID bit of the root. -/
def RootShared (host : Host) (s : Files) (root : List Bytes) : Prop :=
  ∃ loc, s.resolve host root = .ok loc ∧ s.tree.node loc ≠ none ∧ s.mode loc &&& setGid ≠ 0

theorem hasSetGid_iff {found : Option (FileTree.Node Bytes Bytes × Mode)}
    (h : status host root s = (.ok found, s')) :
    hasSetGid found = true ↔ RootShared host s root := by
  obtain ⟨-, hfound⟩ := status_ok h
  cases hloc : s.resolve host root with
  | error errno =>
      simp only [hloc] at hfound
      simp [hfound, hasSetGid, RootShared, hloc]
  | ok loc =>
      simp only [hloc] at hfound
      cases hnode : s.tree.node loc <;> simp [hfound, hasSetGid, RootShared, hloc, hnode]

theorem setupTask_ok (h : setupTask host root uuid s = (.ok shared, s')) :
    ∃ found t t', status host root s = (.ok found, t) ∧ shared = hasSetGid found ∧
      makeDirs host (temporaryPath root uuid).tail shared t = (.ok (), t') ∧
      makeDirs host (temporaryPath root uuid) shared t' = (.ok (), s') := by
  obtain ⟨found, t, hstatus, h⟩ := bind_ok h
  obtain ⟨_, t₁, hmake, h⟩ := bind_ok h
  obtain ⟨_, t₂, hmake', h⟩ := bind_ok h
  obtain ⟨rfl, rfl⟩ : hasSetGid found = shared ∧ t₂ = s' := by simpa using h
  exact ⟨found, t, t₁, mapError_ok hstatus, rfl, hmake, hmake'⟩

theorem setupTask_shared (h : setupTask host root uuid s = (.ok shared, s')) :
    shared = true ↔ RootShared host s root := by
  obtain ⟨found, t, t', hstatus, rfl, -, -⟩ := setupTask_ok h
  exact hasSetGid_iff hstatus

/-- Modes were set on new directories only, and of these on the ones at the paths. -/
def OnlyNew (host : Host) (s : Files) (paths : List (List Bytes)) : Prop :=
  ∀ loc before after, .chmod loc before after ∈ s.log →
    (∃ mode, .mkdir loc mode ∈ s.log) ∧ ∃ path ∈ paths, s.resolve host path = .ok loc

theorem setupTask_onlyNew (h : setupTask host root uuid s.started = (.ok true, s')) :
    OnlyNew host s' [(temporaryPath root uuid).tail, temporaryPath root uuid] := by
  obtain ⟨found, t, t', hstatus, -, hmake, hmake'⟩ := setupTask_ok h
  obtain ⟨hkeeps, -⟩ := status_ok hstatus
  obtain ⟨reached, effects, hreached, -, hmakes⟩ := makeDirs_ok hmake
  obtain ⟨reached', effects', hreached', -, hmakes'⟩ := makeDirs_ok hmake'
  have hlog : s'.log = effects ++ effects' := by
    rw [hmakes'.log, hmakes.log, hkeeps.log]
    simp [Files.started]
  intro loc before after hchmod
  rw [hlog] at hchmod ⊢
  rcases List.mem_append.mp hchmod with hmem | hmem
  · obtain ⟨rfl, mode, hmkdir⟩ := hmakes.chmods loc before after hmem
    exact ⟨⟨mode, List.mem_append_left _ hmkdir⟩, _, by simp, resolve_extends hmakes'.grows hreached⟩
  · obtain ⟨rfl, mode, hmkdir⟩ := hmakes'.chmods loc before after hmem
    exact ⟨⟨mode, List.mem_append_right _ hmkdir⟩, _, by simp, hreached'⟩

theorem quiet_setupTask (h : ¬ RootShared host s root) : Quiet s (setupTask host root uuid s).2 := by
  apply quiet_bind (silent_status.mapError _)
  intro found t hstatus
  have hunshared : hasSetGid found = false := by
    rw [← Bool.not_eq_true, hasSetGid_iff (mapError_ok hstatus)]
    exact h
  rw [hunshared]
  exact (silent_makeDirs.bind fun _ => silent_makeDirs.bind fun _ => silent_pure false) t

/-! ### Committing -/

theorem log_status {path : List Bytes} : (status host path s).2.log = s.log := by
  rw [status, syscall]
  split
  · rfl
  · split
    · rename_i heq
      split at heq <;>
      · obtain ⟨-, rfl⟩ := Prod.mk.inj (Except.ok.inj heq)
        rfl
    · rfl

theorem log_bind {ε α β : Type} {x : FileIo ε α} {f : α → FileIo ε β} (hx : (x s).2.log = s.log)
    (hf : ∀ value t, x s = (.ok value, t) → (f value t).2.log = t.log) : ((x >>= f) s).2.log = s.log := by
  cases heq : x s with
  | mk outcome t =>
      rw [heq] at hx
      cases outcome with
      | ok value => rw [bind_of_ok heq, hf value t heq, hx]
      | error error => rw [bind_of_error heq, hx]

theorem log_mapError {ε ε' α : Type} {x : FileIo ε α} {f : ε → ε'} (hx : (x s).2.log = s.log) :
    (x.mapError f s).2.log = s.log := by
  rw [FileIo.mapError]
  split <;> (rename_i heq; rw [← hx, heq])

theorem log_pathExists {path : List Bytes} : (pathExists host path s).2.log = s.log :=
  log_bind (log_mapError log_status) fun _ _ _ => rfl

theorem log_removeAll {path : List Bytes} : (removeAll host path s).2.log = s.log := by
  rw [removeAll]
  split <;> rfl

theorem log_handleRenameError {errno : Errno} : (handleRenameError host source target errno s).2.log = s.log := by
  have hend (collided : Bool) (t : Files) : ((if collided then removeAll host source
      else FileIo.throw (.panic "cache rename failed" none (some errno))) t).2.log = t.log := by
    cases collided with
    | true => exact log_removeAll
    | false => rfl
  rw [handleRenameError]
  split
  · exact log_bind log_pathExists fun collided t _ => hend collided t
  · exact hend false s

theorem silent_commitTask : Silent (commitTask host source target false) := by
  apply silent_writeFileSync.bind
  intro _
  apply silent_fsyncDir.bind
  intro _
  apply silent_makeDirs.bind
  intro _
  apply (silent_rename.attempt).bind
  intro outcome
  cases outcome with
  | ok _ => exact silent_pure ()
  | error errno => exact fun _ => quiet_of_log log_handleRenameError

/-- The calls of a commit that returned. It moved its source, or found that another entry is there. -/
theorem commitTask_ok (h : commitTask host source target shared s = (.ok (), s')) :
    ∃ t₁ t₂ t₃, writeFileSync host (Publication.kCommitFileName :: source) [] shared s = (.ok (), t₁) ∧
      fsyncDir host source shared t₁ = (.ok (), t₂) ∧ makeDirs host target.tail shared t₂ = (.ok (), t₃) ∧
      (rename host source target t₃ = (.ok (), s') ∨ s'.log = t₃.log) := by
  obtain ⟨_, t₁, hwrite, h⟩ := bind_ok h
  obtain ⟨_, t₂, hsync, h⟩ := bind_ok h
  obtain ⟨_, t₃, hmake, h⟩ := bind_ok h
  obtain ⟨outcome, t₄, hrename, h⟩ := bind_ok h
  refine ⟨t₁, t₂, t₃, hwrite, hsync, hmake, ?_⟩
  have hrename' : rename host source target t₃ = (outcome, t₄) := by
    obtain ⟨rfl, rfl⟩ : (rename host source target t₃).1 = outcome ∧ (rename host source target t₃).2 = t₄ := by
      simpa [FileIo.attempt] using hrename
    rfl
  cases outcome with
  | ok _ =>
      obtain rfl : t₄ = s' := by simpa using h
      exact .inl hrename'
  | error errno =>
      have hlog : (handleRenameError host source target errno t₄).2.log = t₄.log := log_handleRenameError
      have hend : (handleRenameError host source target errno t₄).2 = s' := congrArg Prod.snd h
      rw [hend, (rename_error hrename').log, List.append_nil] at hlog
      exact .inr hlog

/-! ### Without faults -/

/-- The temporary directory is created in a directory that is there. -/
theorem returns_setupTask {dir : Location Bytes} (hfault : ∀ n, host.fault n = none)
    (hdir : s.resolve host (temporaryPath root uuid).tail = .ok dir) (hisdir : s.tree.isDirectory dir = true)
    (hnew : s.tree.node (uuid :: dir) = none) : Returns (setupTask host root uuid) s := by
  obtain ⟨found, s₁, hstatus⟩ : Returns (status host root) s := returns_status hfault
  refine returns_bind (mapError_of_ok hstatus) ?_
  have htree₁ : s₁.tree = s.tree := (status_ok hstatus).1.tree
  obtain ⟨s₂, hmake, hkeeps⟩ := makeDirs_of_directory hfault ((resolve_congr htree₁).trans hdir) (htree₁ ▸ hisdir)
    (hasSetGid found)
  refine returns_bind hmake ?_
  have htree₂ : s₂.tree = s.tree := hkeeps.tree.trans htree₁
  obtain ⟨_, s₃, hmake'⟩ := returns_makeDirs hfault ((resolve_congr htree₂).trans hdir) (htree₂ ▸ hisdir)
    (htree₂ ▸ hnew) (hasSetGid found)
  exact returns_bind hmake' (returns_pure _)

/-- An entry is moved to a name that is missing. -/
theorem commitTask_returns {name : Bytes} {file dir : Location Bytes} (hfault : ∀ n, host.fault n = none)
    (hsource : EntryAt host s source src)
    (hopened : s.opened host (Publication.kCommitFileName :: source) = some file)
    (hdir : s.resolve host target = .ok dir) (hisdir : s.tree.isDirectory dir = true)
    (hnew : s.tree.node (name :: dir) = none) (hfile : file ≠ name :: dir) (hout : ¬ src <:+ dir) :
    ∃ s', commitTask host source (name :: target) true s = (.ok (), s') ∧ .rename src (name :: dir) ∈ s'.log := by
  obtain ⟨_, s₁, hwrite⟩ : Returns (writeFileSync host (Publication.kCommitFileName :: source) [] true) s :=
    returns_writeFileSync hfault hopened
  obtain ⟨file', hopened', hwritten, -⟩ := writeFileSync_ok hwrite
  obtain rfl : file = file' := by simpa [hopened] using hopened'
  have hsrc : s₁.resolve host source = .ok src := resolve_extends hwritten.grows hsource.resolve
  obtain ⟨entry, parent, dir₀, rfl, rfl, hdir₀, hisdir₀⟩ := hsource
  have hentry := hwritten.grows.isDirectory hisdir₀
  obtain ⟨_, s₂, hsync⟩ := returns_fsyncDir hfault hsrc hentry
  obtain ⟨effects, hkeeps, -⟩ := fsyncDir_ok hsrc hentry hsync
  have hdir₂ : s₂.resolve host target = .ok dir :=
    (resolve_congr hkeeps.tree).trans (resolve_extends hwritten.grows hdir)
  have hisdir₂ : s₂.tree.isDirectory dir = true := by
    rw [hkeeps.tree]
    exact hwritten.grows.isDirectory hisdir
  obtain ⟨s₃, hmake, hkeeps'⟩ := makeDirs_of_directory hfault hdir₂ hisdir₂ true
  have htree : s₃.tree = s₁.tree := hkeeps'.tree.trans hkeeps.tree
  have hdir₃ : s₃.resolve host parent = .ok dir₀ :=
    (resolve_congr htree).trans (resolve_extends hwritten.grows hdir₀)
  have hdir₃' : s₃.resolve host target = .ok dir := (resolve_congr hkeeps'.tree).trans hdir₂
  obtain ⟨_, s₄, hrename⟩ : Returns (rename host (entry :: parent) (name :: target)) s₃ := by
    apply returns_rename hfault hdir₃ hdir₃'
    · rw [htree, hentry]
    · rw [hkeeps'.tree, hisdir₂]
    · rw [htree, hwritten.others _ (Ne.symm hfile), hnew]
    · exact hout
  refine ⟨s₄, ?_, ?_⟩
  · have hattempt : ((rename host (entry :: parent) (name :: target)).attempt : FileIo Failure (Except Errno Unit))
        s₃ = (.ok (.ok ()), s₄) := by
      rw [FileIo.attempt, hrename]
    rw [commitTask, bind_of_ok hwrite, bind_of_ok hsync, List.tail_cons, bind_of_ok hmake, bind_of_ok hattempt]
    rfl
  · obtain ⟨dir₁, dir₁', hdir₁, hdir₁', hmoved, -⟩ := rename_ok hrename
    obtain rfl : dir₀ = dir₁ := by simpa [hdir₃] using hdir₁
    obtain rfl : dir = dir₁' := by simpa [hdir₃'] using hdir₁'
    simp [hmoved.log]

end

end DeepJit.Permissions
