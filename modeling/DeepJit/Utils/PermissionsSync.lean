import DeepJit.Utils.Permissions

/-!
# Syncing a tree

A computation that returns has recorded everything that it changed. `fsync_dir` gives every directory
and file below a directory its mode before it syncs it, syncs a directory after everything in it, and
does not leave the directory.
-/

namespace DeepJit.Permissions

open FileTree (Location Tree)

/-! ### Computations -/

section

variable {ε ε' α β : Type} {s s' : Files}

theorem bind_of_ok {x : FileIo ε α} {f : α → FileIo ε β} {middle : α} {t : Files} (h : x s = (.ok middle, t)) :
    (x >>= f) s = f middle t := by
  simp only [Bind.bind, h]

theorem bind_of_error {x : FileIo ε α} {f : α → FileIo ε β} {error : ε} {t : Files} (h : x s = (.error error, t)) :
    (x >>= f) s = (.error error, t) := by
  simp only [Bind.bind, h]

theorem bind_ok {x : FileIo ε α} {f : α → FileIo ε β} {value : β} (h : (x >>= f) s = (.ok value, s')) :
    ∃ middle t, x s = (.ok middle, t) ∧ f middle t = (.ok value, s') := by
  cases hx : x s with
  | mk outcome t =>
      cases outcome with
      | ok middle => exact ⟨middle, t, rfl, (bind_of_ok hx).symm.trans h⟩
      | error error =>
          rw [bind_of_error hx] at h
          simp at h

@[simp] theorem pure_run (value : α) : (pure value : FileIo ε α) s = (.ok value, s) := rfl

@[simp] theorem throw_run (error : ε) : (FileIo.throw error : FileIo ε α) s = (.error error, s) := rfl

theorem mapError_ok {f : ε → ε'} {x : FileIo ε α} {value : α} (h : x.mapError f s = (.ok value, s')) :
    x s = (.ok value, s') := by
  rw [FileIo.mapError] at h
  split at h
  · rename_i hx
    obtain ⟨rfl, rfl⟩ : _ = value ∧ _ = s' := by simpa using h
    exact hx
  · simp at h

theorem mapError_of_ok {f : ε → ε'} {x : FileIo ε α} {value : α} (h : x s = (.ok value, s')) :
    x.mapError f s = (.ok value, s') := by
  rw [FileIo.mapError, h]

variable {host : Host}

theorem syscall_ok {f : Files → Except Errno (α × Files)} {value : α}
    (h : syscall host f s = (.ok value, s')) : f { s with calls := s.calls + 1 } = .ok (value, s') := by
  rw [syscall] at h
  split at h
  · simp at h
  · split at h
    · rename_i hf
      obtain ⟨rfl, rfl⟩ : _ = value ∧ _ = s' := by simpa using h
      exact hf
    · simp at h

theorem syscall_of_ok {f : Files → Except Errno (α × Files)} {value : α} (hfault : host.fault s.calls = none)
    (h : f { s with calls := s.calls + 1 } = .ok (value, s')) : syscall host f s = (.ok value, s') := by
  rw [syscall]
  simp only [hfault, h]

end

/-! ### Recorded changes -/

/-- The recorded effects, and with them the modes, of a computation. -/
structure Changes (effects : List Effect) (s s' : Files) : Prop where
  log : s'.log = s.log ++ effects
  mode : s'.mode = effects.foldl Effect.apply s.mode

/-- The same without a change of the tree. -/
structure Keeps (effects : List Effect) (s s' : Files) : Prop extends Changes effects s s' where
  tree : s'.tree = s.tree

section

variable {effects effects' : List Effect} {s s' t : Files}

theorem Changes.trans (h : Changes effects s t) (h' : Changes effects' t s') :
    Changes (effects ++ effects') s s' := by
  constructor
  · rw [h'.log, h.log, List.append_assoc]
  · rw [h'.mode, h.mode, List.foldl_append]

theorem Keeps.refl (s : Files) : Keeps [] s s := ⟨⟨by simp, rfl⟩, rfl⟩

theorem Keeps.trans (h : Keeps effects s t) (h' : Keeps effects' t s') : Keeps (effects ++ effects') s s' :=
  ⟨h.toChanges.trans h'.toChanges, h'.tree.trans h.tree⟩

theorem keeps_calls (s : Files) (calls : Nat) : Keeps [] s { s with calls := calls } := ⟨⟨by simp, rfl⟩, rfl⟩

/-- A call of the operating system that fails. -/
theorem syscall_error {α : Type} {host : Host} {f : Files → Except Errno (α × Files)} {errno : Errno}
    (h : syscall host f s = (.error errno, s')) : Keeps [] s s' := by
  rw [syscall] at h
  split at h
  · obtain ⟨-, rfl⟩ : _ = errno ∧ _ = s' := by simpa using h
    exact keeps_calls s _
  · split at h
    · simp at h
    · obtain ⟨-, rfl⟩ : _ = errno ∧ _ = s' := by simpa using h
      exact keeps_calls s _

theorem keeps_record (s : Files) (calls : Nat) (effect : Effect) :
    Keeps [effect] s ({ s with calls := calls }.record effect) := ⟨⟨rfl, rfl⟩, rfl⟩

end

/-! ### Paths -/

section

variable {host : Host} {s s' : Files} {path : List Bytes} {loc : Location Bytes}

theorem resolve_ok : s.resolve host path = .ok loc ↔
    ∃ left, s.tree.resolve host.links host.base path = some (loc, left) := by
  rw [Files.resolve]
  split
  · rename_i reached left h
    rw [h]
    simp
  · rename_i h
    rw [h]
    simp

theorem resolve_congr (htree : s'.tree = s.tree) : s'.resolve host path = s.resolve host path := by
  rw [Files.resolve, Files.resolve, htree]

theorem resolve_calls (s : Files) (calls : Nat) :
    Files.resolve host { s with calls := calls } path = s.resolve host path := rfl

theorem resolve_extends (h : s.tree.Extends s'.tree) (hloc : s.resolve host path = .ok loc) :
    s'.resolve host path = .ok loc := by
  obtain ⟨left, hleft⟩ := resolve_ok.mp hloc
  exact resolve_ok.mpr ⟨left, h.resolve hleft⟩

/-- An entry that is no link is where its directory is. -/
theorem resolve_entry {name : Bytes} (hloc : s.resolve host path = .ok loc)
    (hnode : s.tree.isDirectory (name :: loc) = true ∨ s.tree.isFile (name :: loc) = true) :
    s.resolve host (name :: path) = .ok (name :: loc) := by
  obtain ⟨left, hleft⟩ := resolve_ok.mp hloc
  refine resolve_ok.mpr ⟨left, ?_⟩
  rw [s.tree.resolve_cons, hleft, Option.bind_some]
  rcases hnode with hdir | hfile
  · have hnode := s.tree.isDirectory_iff.mp hdir
    exact s.tree.walk_entry left (by rw [hnode]; simp) (by rw [hnode]; simp)
  · obtain ⟨content, hnode⟩ := s.tree.isFile_iff.mp hfile
    exact s.tree.walk_entry left (by rw [hnode]; simp) (by rw [hnode]; simp)

theorem throw_ne_ok {α : Type} {errno : Errno} {value : α} : (throw errno : Except Errno α) ≠ .ok value := nofun

/-- A call that first resolves its path. -/
theorem syscall_resolve_ok {α : Type} {g : Location Bytes → Files → Except Errno (α × Files)} {value : α}
    (h : syscall host (fun s => s.resolve host path >>= fun loc => g loc s) s = (.ok value, s')) :
    ∃ reached, s.resolve host path = .ok reached ∧ g reached { s with calls := s.calls + 1 } = .ok (value, s') := by
  have hcall := syscall_ok h
  rw [resolve_calls] at hcall
  cases hresolve : s.resolve host path with
  | error errno => simp [hresolve, Bind.bind, Except.bind] at hcall
  | ok reached =>
      rw [hresolve] at hcall
      exact ⟨reached, rfl, hcall⟩

theorem openRead_ok (h : openRead host path s = (.ok loc, s')) :
    s.resolve host path = .ok loc ∧ Keeps [] s s' := by
  obtain ⟨reached, hresolve, hcall⟩ := syscall_resolve_ok h
  obtain ⟨rfl, rfl⟩ : reached = loc ∧ _ = s' := by simpa [Pure.pure, Except.pure] using hcall
  exact ⟨hresolve, keeps_calls s _⟩

theorem fsync_ok (h : fsync host loc s = (.ok (), s')) : Keeps [.fsync loc] s s' := by
  have hcall := syscall_ok h
  obtain rfl : _ = s' := by simpa [Pure.pure, Except.pure] using hcall
  exact keeps_record s _ _

theorem close_ok (h : close host s = (.ok (), s')) : Keeps [] s s' := by
  have hcall := syscall_ok h
  obtain rfl : _ = s' := by simpa [Pure.pure, Except.pure] using hcall
  exact keeps_calls s _

theorem fsyncFile_ok (h : fsyncFile host path s = (.ok (), s')) :
    ∃ loc, s.resolve host path = .ok loc ∧ Keeps [.fsync loc] s s' := by
  obtain ⟨fd, s₁, hopen, h⟩ := bind_ok h
  obtain ⟨_, s₂, hsync, h⟩ := bind_ok h
  obtain ⟨hresolve, hkeeps⟩ := openRead_ok (mapError_ok hopen)
  have hsynced := fsync_ok (mapError_ok hsync)
  have hclosed := close_ok (mapError_ok h)
  exact ⟨fd, hresolve, hkeeps.trans (hsynced.trans hclosed)⟩

/-! ### Modes -/

/-- What `set_shared_permissions` makes of a mode. -/
def sharedMode (directory : Bool) (before : Mode) : Mode :=
  (if directory then 0o775 else 0o664) ||| if directory then before &&& setGid else 0

theorem status_ok {found : Option (FileTree.Node Bytes Bytes × Mode)} (h : status host path s = (.ok found, s')) :
    Keeps [] s s' ∧ found =
      match s.resolve host path with
      | .ok loc => (s.tree.node loc).map fun node => (node, s.mode loc)
      | .error _ => none := by
  have hcall := syscall_ok h
  rw [resolve_calls] at hcall
  cases hresolve : s.resolve host path with
  | error errno =>
      rw [hresolve] at hcall
      obtain ⟨rfl, rfl⟩ : none = found ∧ _ = s' := by simpa [Pure.pure, Except.pure] using hcall
      exact ⟨keeps_calls s _, rfl⟩
  | ok reached =>
      rw [hresolve] at hcall
      obtain ⟨rfl, rfl⟩ : _ = found ∧ _ = s' := by simpa [Pure.pure, Except.pure] using hcall
      exact ⟨keeps_calls s _, rfl⟩

theorem chmod_ok {mode : Mode} (h : chmod host path mode s = (.ok (), s')) :
    ∃ loc, s.resolve host path = .ok loc ∧ Keeps [.chmod loc (s.mode loc) mode] s s' := by
  obtain ⟨reached, hresolve, hcall⟩ := syscall_resolve_ok h
  obtain rfl : _ = s' := by simpa [Pure.pure, Except.pure] using hcall
  exact ⟨reached, hresolve, keeps_record s _ _⟩

theorem setSharedPermissions_ok {directory : Bool} (hloc : s.resolve host path = .ok loc)
    (hnode : s.tree.node loc ≠ none) (h : setSharedPermissions host path directory true s = (.ok (), s')) :
    Keeps [.chmod loc (s.mode loc) (sharedMode directory (s.mode loc))] s s' := by
  cases directory with
  | false =>
      have hchmod := mapError_ok h
      obtain ⟨reached, hreached, hkeeps⟩ := chmod_ok hchmod
      obtain rfl : loc = reached := by simpa [hloc] using hreached
      simpa [sharedMode] using hkeeps
  | true =>
      obtain ⟨found, s₂, hfound, h⟩ := bind_ok h
      obtain ⟨hstatus, rfl⟩ := status_ok (mapError_ok hfound)
      obtain ⟨reached, hreached, hkeeps⟩ := chmod_ok (mapError_ok h)
      rw [resolve_congr hstatus.tree] at hreached
      obtain rfl : loc = reached := by simpa [hloc] using hreached
      obtain ⟨node, hnode'⟩ := Option.ne_none_iff_exists'.mp hnode
      simp only [hloc, hnode'] at hkeeps
      have hmode : s₂.mode = s.mode := by simpa using hstatus.mode
      have hboth := hstatus.trans hkeeps
      simpa [permissions, sharedMode, hmode] using hboth

end

/-! ### Syncing below a directory -/

/-- Where an effect takes place. A move is at two places at once, and none of them. -/
def Effect.location : Effect → Option (Location Bytes)
  | .mkdir loc _ | .create loc _ | .chmod loc _ _ | .fsync loc => some loc
  | .rename _ _ => none

/-- At a location or below it. -/
def Effect.Within (above : Location Bytes) (effect : Effect) : Prop :=
  ∃ loc, effect.location = some loc ∧ above <:+ loc

/-- The location was synced after its mode was set, and after everything that was done to it or below
it. -/
def Settled (log : List Effect) (loc : Location Bytes) : Prop :=
  ∃ front rest, log = front ++ .fsync loc :: rest ∧ (∃ before after, .chmod loc before after ∈ front) ∧
    ∀ effect ∈ rest, ¬ effect.Within loc

/-- The mode that an entry has in the end. Links are passed over. -/
def sharedAt (tree : Tree Bytes Bytes) (mode : Location Bytes → Mode) (loc : Location Bytes) : Mode :=
  if tree.isDirectory loc then sharedMode true (mode loc)
  else if tree.isFile loc then sharedMode false (mode loc)
  else mode loc

/-- The effects give everything in a region its mode and sync it, and concern nothing else. -/
structure Synced (tree : Tree Bytes Bytes) (mode : Location Bytes → Mode) (region : Location Bytes → Prop)
    (effects : List Effect) : Prop where
  within : ∀ effect ∈ effects, ∃ loc, effect.location = some loc ∧ region loc
  modes : ∀ loc, region loc → effects.foldl Effect.apply mode loc = sharedAt tree mode loc
  settled : ∀ loc, region loc → (tree.isDirectory loc = true ∨ tree.isFile loc = true) → Settled effects loc

section

variable {tree : Tree Bytes Bytes} {mode : Location Bytes → Mode} {effects effects' : List Effect}
  {loc : Location Bytes} {region region' : Location Bytes → Prop}

theorem foldl_apply_of_ne (h : ∀ effect ∈ effects, ∃ l, effect.location = some l ∧ l ≠ loc) :
    effects.foldl Effect.apply mode loc = mode loc := by
  induction effects generalizing mode with
  | nil => rfl
  | cons effect effects ih =>
      rw [List.foldl_cons, ih fun e he => h e (List.mem_cons_of_mem _ he)]
      obtain ⟨l, hl, hne⟩ := h effect List.mem_cons_self
      cases effect with
      | mkdir | create | chmod =>
          obtain rfl := Option.some.inj hl
          exact Function.update_of_ne (Ne.symm hne) _ _
      | fsync => rfl
      | rename => simp [Effect.location] at hl

theorem Settled.extend (h : Settled effects loc) (front : List Effect) {rest : List Effect}
    (hrest : ∀ effect ∈ rest, ¬ effect.Within loc) : Settled (front ++ effects ++ rest) loc := by
  obtain ⟨front', rest', rfl, ⟨before, after, hchmod⟩, hrest'⟩ := h
  refine ⟨front ++ front', rest' ++ rest, by simp, ⟨before, after, List.mem_append_right _ hchmod⟩, ?_⟩
  intro effect heffect
  rcases List.mem_append.mp heffect with hmem | hmem
  · exact hrest' effect hmem
  · exact hrest effect hmem

theorem sharedAt_congr {mode' : Location Bytes → Mode} (h : mode' loc = mode loc) :
    sharedAt tree mode' loc = sharedAt tree mode loc := by
  rw [sharedAt, sharedAt, h]

theorem Synced.not_at (h : Synced tree mode region effects) (hloc : ¬ region loc) :
    ∀ effect ∈ effects, ∃ l, effect.location = some l ∧ l ≠ loc := by
  intro effect heffect
  obtain ⟨l, hl, hregion⟩ := h.within effect heffect
  exact ⟨l, hl, fun heq => hloc (heq ▸ hregion)⟩

theorem Synced.congr (h : Synced tree mode region effects) (hregion : ∀ loc, region' loc ↔ region loc) :
    Synced tree mode region' effects := by
  constructor
  · intro effect heffect
    obtain ⟨l, hl, hin⟩ := h.within effect heffect
    exact ⟨l, hl, (hregion l).mpr hin⟩
  · exact fun loc hloc => h.modes loc ((hregion loc).mp hloc)
  · exact fun loc hloc => h.settled loc ((hregion loc).mp hloc)

/-- Two regions of which neither reaches into the other. -/
theorem Synced.append (h : Synced tree mode region effects)
    (h' : Synced tree (effects.foldl Effect.apply mode) region' effects')
    (hdisjoint : ∀ loc, region loc → ¬ region' loc) (hclosed : ∀ loc l, region loc → loc <:+ l → region l) :
    Synced tree mode (fun loc => region loc ∨ region' loc) (effects ++ effects') := by
  constructor
  · intro effect heffect
    rcases List.mem_append.mp heffect with hmem | hmem
    · obtain ⟨l, hl, hin⟩ := h.within effect hmem
      exact ⟨l, hl, .inl hin⟩
    · obtain ⟨l, hl, hin⟩ := h'.within effect hmem
      exact ⟨l, hl, .inr hin⟩
  · intro loc hloc
    rw [List.foldl_append]
    rcases hloc with hin | hin
    · rw [foldl_apply_of_ne (h'.not_at (hdisjoint loc hin)), h.modes loc hin]
    · rw [h'.modes loc hin]
      exact sharedAt_congr (foldl_apply_of_ne (h.not_at fun hin' => hdisjoint loc hin' hin))
  · intro loc hloc hnode
    rcases hloc with hin | hin
    · have hafter : ∀ effect ∈ effects', ¬ effect.Within loc := by
        intro effect heffect hwithin
        obtain ⟨l, hl, hbelow⟩ := hwithin
        obtain ⟨l', hl', hin'⟩ := h'.within effect heffect
        obtain rfl : l = l' := Option.some.inj (hl.symm.trans hl')
        exact hdisjoint l (hclosed loc l hin hbelow) hin'
      simpa using (h.settled loc hin hnode).extend [] hafter
    · have hrest : ∀ effect ∈ ([] : List Effect), ¬ effect.Within loc := by simp
      simpa using (h'.settled loc hin hnode).extend effects hrest

theorem synced_nil (hregion : ∀ loc, region loc → tree.isDirectory loc = false ∧ tree.isFile loc = false) :
    Synced tree mode region [] := by
  constructor
  · simp
  · intro loc hloc
    obtain ⟨hdir, hfile⟩ := hregion loc hloc
    simp [sharedAt, hdir, hfile]
  · intro loc hloc hnode
    obtain ⟨hdir, hfile⟩ := hregion loc hloc
    simp [hdir, hfile] at hnode

/-- Below something that is no directory there is nothing. -/
theorem eq_of_suffix (hloc : tree.isDirectory loc = false) {l : Location Bytes} (hbelow : loc <:+ l)
    (hnode : tree.node l ≠ none) : l = loc := by
  obtain ⟨front, rfl⟩ := hbelow
  by_contra hne
  have hfront : front ≠ [] := by
    rintro rfl
    exact hne rfl
  simp [tree.isDirectory_of_suffix hfront hnode] at hloc

theorem node_ne_none_of_isFile (h : tree.isFile loc = true) : tree.node loc ≠ none := by
  obtain ⟨content, hcontent⟩ := tree.isFile_iff.mp h
  simp [hcontent]

theorem node_ne_none_of_entry (h : tree.isDirectory loc = true ∨ tree.isFile loc = true) : tree.node loc ≠ none := by
  rcases h with hdir | hfile
  · exact tree.node_ne_none_of_isDirectory hdir
  · exact node_ne_none_of_isFile hfile

theorem isDirectory_eq_false_of_isFile (h : tree.isFile loc = true) : tree.isDirectory loc = false := by
  obtain ⟨content, hcontent⟩ := tree.isFile_iff.mp h
  simp [Tree.isDirectory, hcontent]

theorem synced_file (hfile : tree.isFile loc = true) :
    Synced tree mode (fun l => loc <:+ l) [.chmod loc (mode loc) (sharedMode false (mode loc)), .fsync loc] := by
  have hdir := isDirectory_eq_false_of_isFile hfile
  constructor
  · intro effect heffect
    simp only [List.mem_cons, List.not_mem_nil, or_false] at heffect
    rcases heffect with rfl | rfl <;> exact ⟨loc, rfl, List.suffix_rfl⟩
  · intro l hl
    by_cases heq : l = loc
    · subst heq
      simp [Effect.apply, sharedAt, hdir, hfile]
    · have hnone : tree.node l = none := by
        by_contra hnode
        exact heq (eq_of_suffix hdir hl hnode)
      simp [Effect.apply, sharedAt, heq, Tree.isDirectory, Tree.isFile, hnone]
  · intro l hl hnode
    obtain rfl := eq_of_suffix hdir hl (node_ne_none_of_entry hnode)
    exact ⟨[.chmod l (mode l) (sharedMode false (mode l))], [], rfl, ⟨_, _, List.mem_cons_self⟩, by simp⟩

/-- Below some names of a directory. -/
def BelowNames (names : List Bytes) (dir l : Location Bytes) : Prop := ∃ name ∈ names, name :: dir <:+ l

theorem not_suffix_self {name : Bytes} : ¬ name :: loc <:+ loc := by
  intro h
  have hle := h.length_le
  rw [List.length_cons] at hle
  omega

theorem eq_of_suffix_suffix {name name' : Bytes} {l : Location Bytes} (h : name :: loc <:+ l)
    (h' : name' :: loc <:+ l) : name = name' := by
  have hsuffix := List.suffix_of_suffix_length_le h h' (by simp)
  exact (List.cons.inj (hsuffix.eq_of_length (by simp))).1

/-- A directory around its entries. -/
theorem synced_directory (hloc : tree.isDirectory loc = true)
    (h : Synced tree (Function.update mode loc (sharedMode true (mode loc))) (BelowNames (tree.entries loc) loc)
      effects) :
    Synced tree mode (fun l => loc <:+ l)
      (.chmod loc (mode loc) (sharedMode true (mode loc)) :: effects ++ [.fsync loc]) := by
  have hbelow {l : Location Bytes} (hl : BelowNames (tree.entries loc) loc l) : loc <:+ l ∧ l ≠ loc := by
    obtain ⟨name, -, hname⟩ := hl
    refine ⟨(List.suffix_cons _ _).trans hname, ?_⟩
    rintro rfl
    exact not_suffix_self hname
  have hfold (l : Location Bytes) :
      (Effect.chmod loc (mode loc) (sharedMode true (mode loc)) :: effects ++ [Effect.fsync loc]).foldl
          Effect.apply mode l =
        effects.foldl Effect.apply (Function.update mode loc (sharedMode true (mode loc))) l := by
    simp [Effect.apply]
  have hpresent {l : Location Bytes} (hl : loc <:+ l) (hne : l ≠ loc) (hnode : tree.node l ≠ none) :
      BelowNames (tree.entries loc) loc l := by
    obtain ⟨front, rfl⟩ := hl
    rcases front.eq_nil_or_concat with rfl | ⟨rest, name, rfl⟩
    · exact absurd rfl hne
    · have hname : name :: loc <:+ rest.concat name ++ loc := ⟨rest, by simp⟩
      refine ⟨name, tree.mem_entries.mpr fun hnone => hnode (tree.node_eq_none_of_suffix hnone hname), hname⟩
  constructor
  · intro effect heffect
    simp only [List.cons_append, List.mem_cons, List.mem_append, List.not_mem_nil, or_false] at heffect
    rcases heffect with rfl | hmem | rfl
    · exact ⟨loc, rfl, List.suffix_rfl⟩
    · obtain ⟨l, hl, hin⟩ := h.within effect hmem
      exact ⟨l, hl, (hbelow hin).1⟩
    · exact ⟨loc, rfl, List.suffix_rfl⟩
  · intro l hl
    rw [hfold]
    by_cases hin : BelowNames (tree.entries loc) loc l
    · rw [h.modes l hin]
      exact sharedAt_congr (Function.update_of_ne (hbelow hin).2 _ _)
    · rw [foldl_apply_of_ne (h.not_at hin)]
      by_cases heq : l = loc
      · subst heq
        simp [sharedAt, hloc]
      · have hnone : tree.node l = none := by
          by_contra hnode
          exact hin (hpresent hl heq hnode)
        simp [sharedAt, heq, Tree.isDirectory, Tree.isFile, hnone]
  · intro l hl hnode
    by_cases heq : l = loc
    · subst heq
      exact ⟨_, [], rfl, ⟨_, _, List.mem_cons_self⟩, by simp⟩
    · have hsettled := h.settled l (hpresent hl heq (node_ne_none_of_entry hnode)) hnode
      have hlast : ∀ effect ∈ [Effect.fsync loc], ¬ effect.Within l := by
        intro effect heffect hwithin
        obtain rfl := List.mem_singleton.mp heffect
        obtain ⟨l', hl', hsuffix⟩ := hwithin
        obtain rfl : loc = l' := Option.some.inj hl'
        exact heq (hsuffix.eq_of_length_le hl.length_le)
      exact hsettled.extend [_] hlast

end

section

variable {host : Host} {s s' : Files} {path : List Bytes} {loc : Location Bytes} {fuel : Nat}

theorem readDirectory_ok {names : List Bytes} (hloc : s.resolve host path = .ok loc)
    (h : readDirectory host path s = (.ok names, s')) : names = s.tree.entries loc ∧ Keeps [] s s' := by
  obtain ⟨reached, hresolve, hcall⟩ := syscall_resolve_ok h
  obtain rfl : loc = reached := by simpa [hloc] using hresolve
  split at hcall
  · obtain ⟨rfl, rfl⟩ : _ = names ∧ _ = s' := by simpa [Pure.pure, Except.pure] using hcall
    exact ⟨rfl, keeps_calls s _⟩
  · exact absurd hcall throw_ne_ok

theorem symlinkStatus_ok {name : Bytes} {found : Option (FileTree.Node Bytes Bytes)}
    (hloc : s.resolve host path = .ok loc) (h : symlinkStatus host path name s = (.ok found, s')) :
    found = s.tree.node (name :: loc) ∧ Keeps [] s s' := by
  obtain ⟨reached, hresolve, hcall⟩ := syscall_resolve_ok h
  obtain rfl : loc = reached := by simpa [hloc] using hresolve
  obtain ⟨rfl, rfl⟩ : _ = found ∧ _ = s' := by simpa [Pure.pure, Except.pure] using hcall
  exact ⟨rfl, keeps_calls s _⟩

/-- What a call for a path that leads to `loc` does, if it returns. -/
def SyncsAt (s s' : Files) (region : Location Bytes → Prop) : Prop :=
  ∃ effects, Keeps effects s s' ∧ Synced s.tree s.mode region effects

theorem fsyncEntry_ok {recurse : List Bytes → FileIo Failure Unit} {name : Bytes}
    (hloc : s.resolve host path = .ok loc)
    (hdir : ∀ {t t' : Files}, t.tree = s.tree → s.tree.isDirectory (name :: loc) = true →
      recurse (name :: path) t = (.ok (), t') → SyncsAt t t' fun l => name :: loc <:+ l)
    (h : fsyncEntry host true recurse path name s = (.ok (), s')) : SyncsAt s s' fun l => name :: loc <:+ l := by
  obtain ⟨found, s₁, hstatus, h⟩ := bind_ok h
  obtain ⟨rfl, hkeeps⟩ := symlinkStatus_ok hloc (mapError_ok hstatus)
  have hmode : s₁.mode = s.mode := by simpa using hkeeps.mode
  have hpassed (hdirectory : s.tree.isDirectory (name :: loc) = false) (hfile : s.tree.isFile (name :: loc) = false)
      (hend : s₁ = s') : SyncsAt s s' fun l => name :: loc <:+ l := by
    subst hend
    refine ⟨[], hkeeps, synced_nil ?_⟩
    intro l hl
    by_cases heq : l = name :: loc
    · rw [heq]
      exact ⟨hdirectory, hfile⟩
    · have hnone : s.tree.node l = none := by
        by_contra hnode
        exact heq (eq_of_suffix hdirectory hl hnode)
      simp [Tree.isDirectory, Tree.isFile, hnone]
  cases hnode : s.tree.node (name :: loc) with
  | none =>
      rw [hnode] at h
      exact hpassed (by simp [Tree.isDirectory, hnode]) (by simp [Tree.isFile, hnode]) (by simpa using h)
  | some node =>
      rw [hnode] at h
      cases node with
      | link target =>
          exact hpassed (by simp [Tree.isDirectory, hnode]) (by simp [Tree.isFile, hnode]) (by simpa using h)
      | directory =>
          obtain ⟨effects, hkeeps', hsynced⟩ := hdir hkeeps.tree (s.tree.isDirectory_iff.mpr hnode) h
          rw [hkeeps.tree, hmode] at hsynced
          exact ⟨effects, hkeeps.trans hkeeps', hsynced⟩
      | file content =>
          have hfile : s.tree.isFile (name :: loc) = true := s.tree.isFile_iff.mpr ⟨content, hnode⟩
          have hreached : s₁.resolve host (name :: path) = .ok (name :: loc) := by
            rw [resolve_congr hkeeps.tree]
            exact resolve_entry hloc (.inr hfile)
          obtain ⟨_, s₂, hset, h⟩ := bind_ok h
          have hset' := setSharedPermissions_ok hreached (by rw [hkeeps.tree, hnode]; simp) hset
          obtain ⟨loc', hloc', hsync⟩ := fsyncFile_ok h
          rw [resolve_congr hset'.tree, hreached] at hloc'
          obtain rfl : name :: loc = loc' := by simpa using hloc'
          rw [hmode] at hset'
          exact ⟨_, hkeeps.trans (hset'.trans hsync), synced_file hfile⟩

/-- The entries of a directory, one after the other. -/
theorem fsyncEntries_ok {recurse : List Bytes → FileIo Failure Unit} {names : List Bytes} (hnames : names.Nodup)
    (hloc : s.resolve host path = .ok loc)
    (hdir : ∀ {name : Bytes} {t t' : Files}, t.tree = s.tree → s.tree.isDirectory (name :: loc) = true →
      recurse (name :: path) t = (.ok (), t') → SyncsAt t t' fun l => name :: loc <:+ l)
    (h : names.forM (fsyncEntry host true recurse path) s = (.ok (), s')) :
    SyncsAt s s' (BelowNames names loc) := by
  induction names generalizing s with
  | nil =>
      obtain rfl : s = s' := by simpa using h
      exact ⟨[], Keeps.refl s, synced_nil (by simp [BelowNames])⟩
  | cons name names ih =>
      have hcons : (fsyncEntry host true recurse path name >>= fun _ =>
        names.forM (fsyncEntry host true recurse path)) s = (.ok (), s') := h
      obtain ⟨_, s₁, hentry, h⟩ := bind_ok hcons
      obtain ⟨effects, hkeeps, hsynced⟩ := fsyncEntry_ok hloc hdir hentry
      obtain ⟨hnew, hrest⟩ := List.nodup_cons.mp hnames
      obtain ⟨effects', hkeeps', hsynced'⟩ := ih hrest ((resolve_congr hkeeps.tree).trans hloc) (by
        intro name t t' ht hisdir hcall
        rw [hkeeps.tree] at ht hisdir
        exact hdir ht hisdir hcall) h
      rw [hkeeps.tree, hkeeps.mode] at hsynced'
      refine ⟨effects ++ effects', hkeeps.trans hkeeps', ?_⟩
      apply (hsynced.append hsynced' _ _).congr
      · intro l
        simp [BelowNames]
      · rintro l hl ⟨name', hname', hl'⟩
        exact hnew (eq_of_suffix_suffix hl hl' ▸ hname')
      · exact fun l l' hl hl' => hl.trans hl'

theorem fsyncDirWith_ok (hloc : s.resolve host path = .ok loc) (hdir : s.tree.isDirectory loc = true)
    (h : fsyncDirWith host true fuel path s = (.ok (), s')) : SyncsAt s s' fun l => loc <:+ l := by
  induction fuel generalizing s s' path loc with
  | zero => simp [fsyncDirWith] at h
  | succ fuel ih =>
      rw [fsyncDirWith] at h
      obtain ⟨_, s₁, hset, h⟩ := bind_ok h
      obtain ⟨names, s₂, hread, h⟩ := bind_ok h
      obtain ⟨_, s₃, hentries, hfile⟩ := bind_ok h
      have hset' := setSharedPermissions_ok hloc (s.tree.node_ne_none_of_isDirectory hdir) hset
      obtain ⟨rfl, hread'⟩ := readDirectory_ok ((resolve_congr hset'.tree).trans hloc) (mapError_ok hread)
      have hkeeps := hset'.trans hread'
      obtain ⟨effects, hkeeps', hsynced⟩ := fsyncEntries_ok (s₁.tree.nodup_entries loc)
        ((resolve_congr hkeeps.tree).trans hloc) (by
          intro name t t' ht hisdir hcall
          have hreached : t.resolve host (name :: path) = .ok (name :: loc) := by
            rw [resolve_congr ht]
            exact resolve_entry ((resolve_congr hkeeps.tree).trans hloc) (.inl hisdir)
          exact ih hreached (ht ▸ hisdir) hcall) hentries
      obtain ⟨loc', hloc', hsync⟩ := fsyncFile_ok hfile
      rw [resolve_congr (hkeeps'.tree.trans hkeeps.tree), hloc] at hloc'
      obtain rfl : loc = loc' := by simpa using hloc'
      have hmode : s₂.mode = Function.update s.mode loc (sharedMode true (s.mode loc)) := by
        simpa [Effect.apply] using hkeeps.mode
      rw [hkeeps.tree, hmode, hset'.tree] at hsynced
      have hall := hkeeps.trans (hkeeps'.trans hsync)
      exact ⟨_, by simpa using hall, synced_directory hdir hsynced⟩

theorem fsyncDir_ok (hloc : s.resolve host path = .ok loc) (hdir : s.tree.isDirectory loc = true)
    (h : fsyncDir host path true s = (.ok (), s')) : SyncsAt s s' fun l => loc <:+ l :=
  fsyncDirWith_ok hloc hdir h

end

end DeepJit.Permissions
