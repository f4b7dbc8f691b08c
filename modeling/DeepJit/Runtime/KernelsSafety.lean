import DeepJit.Library.Ownership
import DeepJit.Runtime.Kernels

/-!
# Safety of kernels

Three invariants of the threads: who has the GIL, that every `use_count` is the number of the
`shared_ptr`s that are there, and that every loaded library has one owner, a kernel or a thread.
-/

namespace DeepJit.Kernels

/-! ### The GIL -/

section

variable {backend : Backend} {phases : Nat → Phase} {gil : Option Nat} {t : Nat} {phase : Phase}

/-- Who is at the cache has the GIL. -/
def Guarded (backend : Backend) (phases : Nat → Phase) (gil : Option Nat) : Prop :=
  ∀ t, (phases t).holdsGil backend = true ↔ gil = some t

theorem Guarded.keep (h : Guarded backend phases gil)
    (hsame : phase.holdsGil backend = (phases t).holdsGil backend) :
    Guarded backend (Function.update phases t phase) gil := by
  intro u
  by_cases hu : u = t
  · rw [hu, Function.update_self, hsame]
    exact h t
  · rw [Function.update_of_ne hu]
    exact h u

theorem Guarded.acquire (h : Guarded backend phases gil) (hgil : gil = none)
    (hholds : phase.holdsGil backend = true) : Guarded backend (Function.update phases t phase) (some t) := by
  intro u
  by_cases hu : u = t
  · rw [hu, Function.update_self]
    exact ⟨fun _ => rfl, fun _ => hholds⟩
  · rw [Function.update_of_ne hu, h u, hgil]
    simpa using Ne.symm hu

theorem Guarded.release (h : Guarded backend phases gil) (hheld : (phases t).holdsGil backend = true)
    (hholds : phase.holdsGil backend = false) : Guarded backend (Function.update phases t phase) none := by
  intro u
  by_cases hu : u = t
  · rw [hu, Function.update_self, hholds]
    simp
  · rw [Function.update_of_ne hu, h u, (h t).mp hheld]
    simpa using Ne.symm hu

end

section

variable {backend : Backend} {s s' : State} {t u k : Nat} {key : Bytes} {kernel : Kernel}

@[simp] theorem emplace_phases (s : State) (key : Bytes) (k : Nat) (kernel : Kernel) :
    (s.emplace key k kernel).phases = s.phases := by
  unfold State.emplace
  split <;> rfl

@[simp] theorem emplace_gil (s : State) (key : Bytes) (k : Nat) (kernel : Kernel) :
    (s.emplace key k kernel).gil = s.gil := by
  unfold State.emplace
  split <;> rfl

theorem Guarded.step (h : Guarded backend s.phases s.gil) (hstep : Step backend s t s') :
    Guarded backend s'.phases s'.gil := by
  cases hstep with
  | acquire hphase hgil => exact h.acquire hgil rfl
  | release hphase | miss hphase | launch _ hphase => exact h.release (by rw [hphase]; rfl) rfl
  | hit | drop | destroy => exact h
  | share => exact h
  | load hphase | call hphase | callFails hphase | loaded hphase | throws hphase | launchCall hphase
  | launched hphase => exact h.keep (by rw [hphase]; rfl)
  | discard done hphase =>
      cases done with
      | true | false => exact h.keep (by rw [hphase]; rfl)
  | @reacquire value hphase hgil =>
      cases value with
      | none | some => exact h.acquire hgil rfl
  | emplace hphase =>
      have hkept : Guarded backend (Function.update s.phases t .python) s.gil := h.keep (by rw [hphase]; rfl)
      simp only [State.goto, emplace_phases, emplace_gil]
      exact hkept
  | dropLast hphase =>
      cases hreleases : backend.unloadReleasesGil with
      | true =>
          simpa [State.dropLast, hreleases] using
            h.release (by rw [hphase]; rfl) (by simp [Phase.holdsGil, hreleases])
      | false =>
          simpa [State.dropLast, hreleases] using h.keep (by rw [hphase]; simp [Phase.holdsGil, hreleases])
  | unload done hphase =>
      have hkept : Guarded backend
          (Function.update s.phases t (if backend.unloadReleasesGil then .acquiring none else .python)) s.gil := by
        apply h.keep
        rw [hphase]
        cases hreleases : backend.unloadReleasesGil <;> simp [Phase.holdsGil, hreleases]
      cases done with
      | true | false => exact hkept

end

/-! ### The shared pointers -/

/-- How many `shared_ptr`s of a kernel there are. -/
def references (cache : List (Bytes × Nat)) (held : List (Nat × Nat)) (k : Nat) : Nat :=
  (cache.map Prod.snd).count k + (held.map Prod.snd).count k

structure RefInv (s : State) : Prop where
  counted : ∀ k kernel, s.kernels k = some kernel →
    kernel.useCount = references s.cache s.held k ∧ 0 < kernel.useCount
  absent : ∀ k, s.kernels k = none → references s.cache s.held k = 0
  numbered : ∀ k, s.numKernels ≤ k → s.kernels k = none
  keyed : ∀ key k, (key, k) ∈ s.cache → ∃ kernel, s.kernels k = some kernel ∧ kernel.key = key
  used : ∀ t request k, (s.phases t).value = some (request, k) → (t, k) ∈ s.held ∧
    ∀ key, request = some key → ∃ kernel, s.kernels k = some kernel ∧ kernel.key = key

section

variable {cache : List (Bytes × Nat)} {held : List (Nat × Nat)} {t k : Nat} {key : Bytes}

theorem references_cons (j : Nat) :
    references cache ((t, k) :: held) j = references cache held j + if k = j then 1 else 0 := by
  simp only [references, List.map_cons, List.count_cons, beq_iff_eq]
  omega

theorem references_append (j : Nat) :
    references (cache ++ [(key, k)]) held j = references cache held j + if k = j then 1 else 0 := by
  simp only [references, List.map_append, List.map_cons, List.map_nil, List.count_append, List.count_cons,
    List.count_nil, beq_iff_eq]
  omega

theorem references_erase (cache : List (Bytes × Nat)) (hheld : (t, k) ∈ held) (j : Nat) :
    references cache held j = references cache (held.erase (t, k)) j + if k = j then 1 else 0 := by
  have hperm := ((List.perm_cons_erase hheld).map Prod.snd).count_eq j
  rw [← references_cons (t := t)]
  simp only [references, hperm]

theorem references_destroy (j : Nat) :
    references [] (cache.map (fun entry => (t, entry.2)) ++ held) j = references cache held j := by
  simp only [references, List.map_append, List.map_map, List.count_append, List.map_nil, List.count_nil]
  rw [Nat.zero_add]
  rfl

theorem references_pos (hheld : (t, k) ∈ held) : 0 < references cache held k := by
  have hmem : k ∈ held.map Prod.snd := List.mem_map_of_mem hheld
  have hcount := List.count_pos_iff.mpr hmem
  unfold references
  omega

theorem references_pos_of_cached (hcached : (key, k) ∈ cache) : 0 < references cache held k := by
  have hmem : k ∈ cache.map Prod.snd := List.mem_map_of_mem hcached
  have hcount := List.count_pos_iff.mpr hmem
  unfold references
  omega

theorem owner_of_references (h : 0 < references cache held k) :
    (∃ key, (key, k) ∈ cache) ∨ ∃ t, (t, k) ∈ held := by
  unfold references at h
  by_cases hcached : 0 < (cache.map Prod.snd).count k
  · obtain ⟨⟨key, _⟩, hmem, rfl⟩ := List.mem_map.mp (List.count_pos_iff.mp hcached)
    exact .inl ⟨key, hmem⟩
  · have hheld : 0 < (held.map Prod.snd).count k := by omega
    obtain ⟨⟨t, _⟩, hmem, rfl⟩ := List.mem_map.mp (List.count_pos_iff.mp hheld)
    exact .inr ⟨t, hmem⟩

end

section

variable {backend : Backend} {s s' : State} {t k n : Nat} {key : Bytes} {kernel : Kernel}

theorem RefInv.exists_of_pos (h : RefInv s) (hpos : 0 < references s.cache s.held k) :
    ∃ kernel, s.kernels k = some kernel := by
  cases hkernel : s.kernels k with
  | none => exact absurd (h.absent k hkernel) (Nat.ne_of_gt hpos)
  | some kernel => exact ⟨kernel, rfl⟩

/-- A step that leaves the kernels and their pointers alone. -/
theorem RefInv.congr (h : RefInv s) (hkernels : s'.kernels = s.kernels) (hnum : s'.numKernels = s.numKernels)
    (hcache : s'.cache = s.cache) (hheld : s'.held = s.held)
    (hvalue : ∀ u v, (s'.phases u).value = some v → (s.phases u).value = some v) : RefInv s' where
  counted := by
    rw [hkernels, hcache, hheld]
    exact h.counted
  absent := by
    rw [hkernels, hcache, hheld]
    exact h.absent
  numbered := by
    rw [hkernels, hnum]
    exact h.numbered
  keyed := by
    rw [hkernels, hcache]
    exact h.keyed
  used u request j hj := by
    rw [hkernels, hheld]
    exact h.used u request j (hvalue u _ hj)

theorem value_update {phases : Nat → Phase} {phase : Phase}
    (hvalue : ∀ v, phase.value = some v → (phases t).value = some v) (u : Nat) (v : Option Bytes × Nat)
    (hv : (Function.update phases t phase u).value = some v) : (phases u).value = some v := by
  by_cases hu : u = t
  · rw [hu, Function.update_self] at hv
    rw [hu]
    exact hvalue v hv
  · rwa [Function.update_of_ne hu] at hv

/-- A pointer of one kernel comes or goes, and others remain. -/
theorem RefInv.recount (h : RefInv s) (hkernel : s.kernels k = some kernel)
    (hkernels : s'.kernels = Function.update s.kernels k (some { kernel with useCount := n }))
    (hnum : s'.numKernels = s.numKernels) (hn : 0 < n) (hcount : references s'.cache s'.held k = n)
    (hothers : ∀ j, j ≠ k → references s'.cache s'.held j = references s.cache s.held j)
    (hcache : ∀ key j, (key, j) ∈ s'.cache → (key, j) ∈ s.cache ∨ key = kernel.key ∧ j = k)
    (hvalue : ∀ u request j, (s'.phases u).value = some (request, j) →
      (s.phases u).value = some (request, j) ∧ ((u, j) ∈ s.held → (u, j) ∈ s'.held)) : RefInv s' := by
  have hfound : ∀ j key, (∃ kernel, s.kernels j = some kernel ∧ kernel.key = key) →
      ∃ kernel, s'.kernels j = some kernel ∧ kernel.key = key := by
    rintro j key ⟨kernel', hkernel', hkey⟩
    rw [hkernels]
    by_cases hj : j = k
    · rw [hj, hkernel, Option.some.injEq] at hkernel'
      exact ⟨_, by rw [hj, Function.update_self], by rw [← hkey, ← hkernel']⟩
    · exact ⟨kernel', by rw [Function.update_of_ne hj, hkernel'], hkey⟩
  constructor
  · intro j kernel' hj
    rw [hkernels] at hj
    by_cases hjk : j = k
    · rw [hjk, Function.update_self, Option.some.injEq] at hj
      rw [← hj, hjk, hcount]
      exact ⟨rfl, hn⟩
    · rw [Function.update_of_ne hjk] at hj
      rw [hothers j hjk]
      exact h.counted j kernel' hj
  · intro j hj
    rw [hkernels] at hj
    by_cases hjk : j = k
    · rw [hjk, Function.update_self] at hj
      simp at hj
    · rw [Function.update_of_ne hjk] at hj
      rw [hothers j hjk]
      exact h.absent j hj
  · intro j hj
    rw [hnum] at hj
    have hnone := h.numbered j hj
    have hjk : j ≠ k := by
      rintro rfl
      rw [hkernel] at hnone
      simp at hnone
    rw [hkernels, Function.update_of_ne hjk]
    exact hnone
  · intro key j hj
    apply hfound
    rcases hcache key j hj with hold | ⟨rfl, rfl⟩
    · exact h.keyed key j hold
    · exact ⟨kernel, hkernel, rfl⟩
  · intro u request j hj
    obtain ⟨hold, hheld⟩ := hvalue u request j hj
    obtain ⟨hmem, hkeyed⟩ := h.used u request j hold
    exact ⟨hheld hmem, fun key hkey => hfound j key (hkeyed key hkey)⟩

/-- A `shared_ptr` is copied. -/
theorem RefInv.copyTo (h : RefInv s) (hkernel : s.kernels k = some kernel) (u : Nat) :
    RefInv (s.copyTo u k kernel) := by
  obtain ⟨hcount, hpos⟩ := h.counted k kernel hkernel
  refine h.recount hkernel (n := kernel.useCount + 1) rfl ?_ (Nat.succ_pos _) ?_ ?_ ?_ ?_
  · rfl
  · show references s.cache ((u, k) :: s.held) k = kernel.useCount + 1
    rw [references_cons, if_pos rfl, hcount]
  · intro j hj
    show references s.cache ((u, k) :: s.held) j = _
    rw [references_cons, if_neg (Ne.symm hj), Nat.add_zero]
  · exact fun _ _ hmem => .inl hmem
  · exact fun v request j hj => ⟨hj, fun hmem => List.mem_cons_of_mem _ hmem⟩

/-- `cache.emplace`. -/
theorem RefInv.emplace (h : RefInv s) (hphase : s.phases t = .emplacing key k)
    (hkernel : s.kernels k = some kernel) : RefInv ((s.emplace key k kernel).goto t .python) := by
  have hphases : ∀ u v, (Function.update s.phases t .python u).value = some v → (s.phases u).value = some v :=
    value_update (by simp [Phase.value])
  obtain ⟨hmem, hkeyed⟩ := h.used t (some key) k (by rw [hphase]; rfl)
  obtain ⟨kernel', hkernel', hkey⟩ := hkeyed key rfl
  obtain rfl : kernel' = kernel := Option.some.inj (hkernel'.symm.trans hkernel)
  obtain ⟨hcount, hpos⟩ := h.counted k kernel' hkernel
  unfold State.emplace
  split
  · exact h.congr rfl rfl rfl rfl hphases
  · rename_i hnew
    have hcache : MemCache.emplace s.cache key k = s.cache ++ [(key, k)] := if_neg hnew
    refine h.recount hkernel (n := kernel'.useCount + 1) rfl ?_ (Nat.succ_pos _) ?_ ?_ ?_ ?_
    · rfl
    · show references (MemCache.emplace s.cache key k) s.held k = kernel'.useCount + 1
      rw [hcache, references_append, if_pos rfl, hcount]
    · intro j hj
      show references (MemCache.emplace s.cache key k) s.held j = _
      rw [hcache, references_append, if_neg (Ne.symm hj), Nat.add_zero]
    · intro key' j hj
      change (key', j) ∈ MemCache.emplace s.cache key k at hj
      rw [hcache, List.mem_append, List.mem_singleton, Prod.mk.injEq] at hj
      exact hj.imp_right fun heq => ⟨heq.1.trans hkey.symm, heq.2⟩
    · exact fun u request j hj => ⟨hphases u _ hj, id⟩

/-- A pointer goes, and the kernel has others. -/
theorem RefInv.drop (h : RefInv s) (hphase : s.phases t = .python) (hheld : (t, k) ∈ s.held)
    (hkernel : s.kernels k = some kernel) (hshared : 1 < kernel.useCount) : RefInv (s.drop t k kernel) := by
  obtain ⟨hcount, -⟩ := h.counted k kernel hkernel
  have herase := references_erase s.cache hheld
  refine h.recount hkernel (n := kernel.useCount - 1) rfl ?_ (by omega) ?_ ?_ ?_ ?_
  · rfl
  · show references s.cache (s.held.erase (t, k)) k = kernel.useCount - 1
    have hk := herase k
    rw [if_pos rfl] at hk
    omega
  · intro j hj
    show references s.cache (s.held.erase (t, k)) j = _
    rw [herase j, if_neg (Ne.symm hj), Nat.add_zero]
  · exact fun _ _ hmem => .inl hmem
  · intro u request j hj
    have hu : (u, j) ≠ (t, k) := by
      intro heq
      have hut : u = t := congrArg Prod.fst heq
      change (s.phases u).value = _ at hj
      rw [hut, hphase] at hj
      simp [Phase.value] at hj
    exact ⟨hj, (List.mem_erase_of_ne hu).mpr⟩

/-- The last pointer goes. -/
theorem RefInv.dropLast (h : RefInv s) (hphase : s.phases t = .python) (hheld : (t, k) ∈ s.held)
    (hkernel : s.kernels k = some kernel) (hlast : kernel.useCount = 1) :
    RefInv (s.dropLast backend t k kernel.libraryHandle) := by
  obtain ⟨hcount, -⟩ := h.counted k kernel hkernel
  have herase := references_erase s.cache hheld
  have hk : references s.cache (s.held.erase (t, k)) k = 0 := by
    have hk := herase k
    rw [if_pos rfl] at hk
    omega
  have hothers : ∀ j, j ≠ k → references s.cache (s.held.erase (t, k)) j = references s.cache s.held j := by
    intro j hj
    rw [herase j, if_neg (Ne.symm hj), Nat.add_zero]
  have hphases : ∀ u v, (Function.update s.phases t (.unloading kernel.libraryHandle) u).value = some v →
      (s.phases u).value = some v := value_update (by simp [Phase.value])
  constructor
  · intro j kernel' hj
    have hjk : j ≠ k := by
      rintro rfl
      simp [State.dropLast] at hj
    change Function.update s.kernels k none j = some kernel' at hj
    rw [Function.update_of_ne hjk] at hj
    show kernel'.useCount = references s.cache (s.held.erase (t, k)) j ∧ _
    rw [hothers j hjk]
    exact h.counted j kernel' hj
  · intro j hj
    show references s.cache (s.held.erase (t, k)) j = 0
    by_cases hjk : j = k
    · rw [hjk, hk]
    · rw [hothers j hjk]
      change Function.update s.kernels k none j = none at hj
      rw [Function.update_of_ne hjk] at hj
      exact h.absent j hj
  · intro j hj
    show Function.update s.kernels k none j = none
    by_cases hjk : j = k
    · rw [hjk, Function.update_self]
    · rw [Function.update_of_ne hjk]
      exact h.numbered j hj
  · intro key j hj
    have hjk : j ≠ k := by
      rintro rfl
      have hcached : 0 < references s.cache (s.held.erase (t, j)) j := references_pos_of_cached hj
      omega
    show ∃ kernel', Function.update s.kernels k none j = some kernel' ∧ _
    rw [Function.update_of_ne hjk]
    exact h.keyed key j hj
  · intro u request j hj
    have hu : u ≠ t := by
      rintro rfl
      simp [State.dropLast, Phase.value] at hj
    obtain ⟨hmem, hkeyed⟩ := h.used u request j (hphases u _ hj)
    have hne : (u, j) ≠ (t, k) := fun heq => hu (congrArg Prod.fst heq)
    have hkept : (u, j) ∈ s.held.erase (t, k) := (List.mem_erase_of_ne hne).mpr hmem
    have hjk : j ≠ k := by
      rintro rfl
      exact absurd (references_pos hkept) (Nat.not_lt.mpr (Nat.le_of_eq hk))
    refine ⟨hkept, fun key hkey => ?_⟩
    show ∃ kernel', Function.update s.kernels k none j = some kernel' ∧ _
    rw [Function.update_of_ne hjk]
    exact hkeyed key hkey

/-- `Kernel::load` returns a new kernel. -/
theorem RefInv.loaded (h : RefInv s) (library : Nat) :
    RefInv { s.goto t (.acquiring (some (key, s.numKernels))) with
      kernels := Function.update s.kernels s.numKernels (some ⟨key, library, 1⟩)
      numKernels := s.numKernels + 1
      held := (t, s.numKernels) :: s.held } := by
  have hnone : s.kernels s.numKernels = none := h.numbered _ (Nat.le_refl _)
  have hzero := h.absent _ hnone
  have hfound : ∀ j key', (∃ kernel, s.kernels j = some kernel ∧ kernel.key = key') →
      ∃ kernel, Function.update s.kernels s.numKernels (some ⟨key, library, 1⟩) j = some kernel ∧ kernel.key = key' := by
    rintro j key' ⟨kernel, hkernel, hkey⟩
    have hj : j ≠ s.numKernels := by
      rintro rfl
      rw [hnone] at hkernel
      simp at hkernel
    exact ⟨kernel, by rw [Function.update_of_ne hj, hkernel], hkey⟩
  constructor
  · intro j kernel hj
    show kernel.useCount = references s.cache ((t, s.numKernels) :: s.held) j ∧ _
    change Function.update s.kernels s.numKernels (some ⟨key, library, 1⟩) j = some kernel at hj
    rw [references_cons]
    by_cases hjn : j = s.numKernels
    · rw [hjn, Function.update_self, Option.some.injEq] at hj
      rw [hjn, hzero, if_pos rfl, ← hj]
      exact ⟨rfl, Nat.one_pos⟩
    · rw [Function.update_of_ne hjn] at hj
      rw [if_neg (Ne.symm hjn), Nat.add_zero]
      exact h.counted j kernel hj
  · intro j hj
    show references s.cache ((t, s.numKernels) :: s.held) j = 0
    change Function.update s.kernels s.numKernels (some ⟨key, library, 1⟩) j = none at hj
    rw [references_cons]
    by_cases hjn : j = s.numKernels
    · rw [hjn, Function.update_self] at hj
      simp at hj
    · rw [Function.update_of_ne hjn] at hj
      rw [if_neg (Ne.symm hjn), Nat.add_zero]
      exact h.absent j hj
  · intro j hj
    change s.numKernels + 1 ≤ j at hj
    show Function.update s.kernels s.numKernels (some ⟨key, library, 1⟩) j = none
    rw [Function.update_of_ne (by omega)]
    exact h.numbered j (by omega)
  · exact fun key' j hj => hfound j key' (h.keyed key' j hj)
  · intro u request j hj
    by_cases hu : u = t
    · simp only [State.goto, hu, Function.update_self, Phase.value, Option.some.injEq, Prod.mk.injEq] at hj
      obtain ⟨hrequest, rfl⟩ := hj
      refine ⟨by rw [hu]; exact List.mem_cons_self, fun key' hkey' => ⟨_, Function.update_self .., ?_⟩⟩
      exact Option.some.inj (hrequest.trans hkey')
    · have hold : (s.phases u).value = some (request, j) := by
        simpa [State.goto, Function.update_of_ne hu] using hj
      obtain ⟨hmem, hkeyed⟩ := h.used u request j hold
      exact ⟨List.mem_cons_of_mem _ hmem, fun key' hkey' => hfound j key' (hkeyed key' hkey')⟩

/-- The Runtime goes, and the pointers of its cache belong to the thread. -/
theorem RefInv.destroy (h : RefInv s) :
    RefInv { s with alive := false, cache := [], held := s.cache.map (fun entry => (t, entry.2)) ++ s.held } where
  counted j kernel hj := by
    show kernel.useCount = references [] _ j ∧ _
    rw [references_destroy]
    exact h.counted j kernel hj
  absent j hj := by
    show references [] _ j = 0
    rw [references_destroy]
    exact h.absent j hj
  numbered := h.numbered
  keyed := by simp
  used u request j hj := by
    obtain ⟨hmem, hkeyed⟩ := h.used u request j hj
    exact ⟨List.mem_append_right _ hmem, hkeyed⟩

@[simp] theorem unload_phases (s : State) (library : Nat) (done : Bool) : (s.unload library done).phases = s.phases := by
  cases done <;> rfl

@[simp] theorem unload_kernels (s : State) (library : Nat) (done : Bool) : (s.unload library done).kernels = s.kernels := by
  cases done <;> rfl

theorem RefInv.unload (h : RefInv s) (library : Nat) (done : Bool) {phase : Phase}
    (hvalue : ∀ v, phase.value = some v → (s.phases t).value = some v) :
    RefInv ((s.unload library done).goto t phase) := by
  cases done with
  | true | false => exact h.congr rfl rfl rfl rfl (value_update hvalue)

theorem RefInv.step (h : RefInv s) (hstep : Step backend s t s') : RefInv s' := by
  cases hstep with
  | acquire | release | miss | load | call | callFails | throws | launched =>
      exact h.congr rfl rfl rfl rfl (value_update (by simp [Phase.value]))
  | hit _ _ _ hkernel => exact h.copyTo hkernel t
  | share _ _ hkernel => exact h.copyTo hkernel _
  | discard done => exact h.unload _ done (by simp [Phase.value])
  | loaded => exact h.loaded _
  | @reacquire value hphase =>
      refine h.congr rfl rfl rfl rfl (value_update ?_)
      rw [hphase]
      cases value <;> simp [Phase.acquired, Phase.value]
  | emplace hphase hkernel => exact h.emplace hphase hkernel
  | launchCall hphase =>
      exact h.congr rfl rfl rfl rfl (value_update (by simp [State.record, hphase, Phase.value]))
  | drop hphase hheld hkernel hshared => exact h.drop hphase hheld hkernel hshared
  | dropLast hphase hheld hkernel hlast => exact h.dropLast hphase hheld hkernel hlast
  | unload done =>
      apply h.unload
      split <;> simp [Phase.value]
  | destroy => exact h.destroy
  | @launch k options _ hheld =>
      refine ⟨h.counted, h.absent, h.numbered, h.keyed, fun u request j hj => ?_⟩
      by_cases hu : u = t
      · simp only [State.goto, hu, Function.update_self, Phase.value, Option.some.injEq, Prod.mk.injEq] at hj
        obtain ⟨rfl, rfl⟩ := hj
        exact ⟨hu ▸ hheld, by simp⟩
      · exact h.used u request j (by simpa [State.goto, Function.update_of_ne hu] using hj)

end

/-! ### The libraries -/

/-- The library of a kernel or of a thread. -/
def holdings (kernels : Nat → Option Kernel) (phases : Nat → Phase) : Nat ⊕ Nat → Option Nat
  | .inl k => (kernels k).map Kernel.libraryHandle
  | .inr t => (phases t).library

structure LibraryInv (s : State) : Prop where
  owned : Owned (holdings s.kernels s.phases) s.libraries (fun library => .refused library ∈ s.log)
  sound : replay s.log = some s.libraries

section

variable {backend : Backend} {s s' : State} {t k library : Nat} {kernel : Kernel} {phase : Phase}

theorem holdings_phase (kernels : Nat → Option Kernel) (phases : Nat → Phase) (t : Nat) (phase : Phase) :
    holdings kernels (Function.update phases t phase) =
      Function.update (holdings kernels phases) (.inr t) phase.library := by
  funext owner
  cases owner with
  | inl k => simp [holdings]
  | inr u =>
      by_cases hu : u = t
      · simp [holdings, hu]
      · simp [holdings, hu]

theorem holdings_kernel (kernels : Nat → Option Kernel) (phases : Nat → Phase) (k : Nat) (kernel : Option Kernel) :
    holdings (Function.update kernels k kernel) phases =
      Function.update (holdings kernels phases) (.inl k) (kernel.map Kernel.libraryHandle) := by
  funext owner
  cases owner with
  | inl j =>
      by_cases hj : j = k
      · simp [holdings, hj]
      · simp [holdings, hj]
  | inr u => simp [holdings]

theorem holdings_goto (kernels : Nat → Option Kernel) {phases : Nat → Phase} (hsame : phase.library = (phases t).library) :
    holdings kernels (Function.update phases t phase) = holdings kernels phases := by
  rw [holdings_phase, hsame]
  exact Function.update_eq_self (Sum.inr t) _

theorem holdings_useCount {kernels : Nat → Option Kernel} (phases : Nat → Phase) (hkernel : kernels k = some kernel)
    (n : Nat) : holdings (Function.update kernels k (some { kernel with useCount := n })) phases =
      holdings kernels phases := by
  rw [holdings_kernel]
  have hsame : (some { kernel with useCount := n }).map Kernel.libraryHandle = holdings kernels phases (.inl k) := by
    rw [holdings, hkernel]
    rfl
  rw [hsame]
  exact Function.update_eq_self (Sum.inl k) _

/-- A step without a call of the driver. -/
theorem LibraryInv.congr (h : LibraryInv s) (hholdings : holdings s'.kernels s'.phases = holdings s.kernels s.phases)
    (hlibraries : s'.libraries = s.libraries) (hlog : s'.log = s.log) : LibraryInv s' where
  owned := by
    rw [hholdings, hlibraries, hlog]
    exact h.owned
  sound := by
    rw [hlog, hlibraries]
    exact h.sound

/-- A call on a loaded library. -/
theorem LibraryInv.call (h : LibraryInv s) (c : Call) (hloaded : s.libraries library = true)
    (hsame : phase.library = (s.phases t).library) :
    LibraryInv ((s.record (.called library c)).goto t phase) where
  owned := by
    show Owned (holdings s.kernels (Function.update s.phases t phase)) s.libraries _
    rw [holdings_goto s.kernels hsame]
    exact h.owned.mono fun _ hmem => List.mem_cons_of_mem _ hmem
  sound := by simp [State.record, State.goto, replay, h.sound, hloaded]

/-- A thread unloads its library. -/
theorem LibraryInv.unload (h : LibraryInv s) (done : Bool) (hlibrary : (s.phases t).library = some library)
    (hphase : phase.library = none) : LibraryInv ((s.unload library done).goto t phase) := by
  have hholds : holdings s.kernels s.phases (.inr t) = some library := hlibrary
  have hloaded := h.owned.inUse _ _ hholds
  cases done with
  | true =>
      constructor
      · show Owned (holdings s.kernels (Function.update s.phases t phase)) _ _
        rw [holdings_phase, hphase]
        exact (h.owned.release hholds).mono fun _ hmem => List.mem_cons_of_mem _ hmem
      · simp [State.unload, State.goto, replay, h.sound, hloaded]
  | false =>
      constructor
      · show Owned (holdings s.kernels (Function.update s.phases t phase)) s.libraries _
        rw [holdings_phase, hphase]
        apply h.owned.lose hholds
        rintro r (hlost | rfl)
        · exact List.mem_cons_of_mem _ hlost
        · exact List.mem_cons_self
      · simp [State.unload, State.record, State.goto, replay, h.sound, hloaded]

theorem LibraryInv.step (h : LibraryInv s) (hstep : Step backend s t s') (hrefs : RefInv s) : LibraryInv s' := by
  cases hstep with
  | acquire hphase | release hphase | miss hphase | throws hphase | launch _ hphase | launched hphase =>
      exact h.congr (holdings_goto _ (by rw [hphase]; rfl)) rfl rfl
  | hit _ _ _ hkernel => exact h.congr (holdings_useCount _ hkernel _) rfl rfl
  | share _ _ hkernel => exact h.congr (holdings_useCount _ hkernel _) rfl rfl
  | drop _ _ hkernel => exact h.congr (holdings_useCount _ hkernel _) rfl rfl
  | destroy => exact h.congr rfl rfl rfl
  | @reacquire value hphase =>
      refine h.congr (holdings_goto _ ?_) rfl rfl
      rw [hphase]
      cases value <;> rfl
  | emplace hphase hkernel =>
      unfold State.emplace
      split
      · exact h.congr (holdings_goto _ (by rw [hphase]; rfl)) rfl rfl
      · refine h.congr ?_ rfl rfl
        show holdings (Function.update s.kernels _ _) (Function.update s.phases t .python) = _
        rw [holdings_goto _ (by rw [hphase]; rfl), holdings_useCount _ hkernel]
  | @load library key hphase hnew =>
      have hempty : holdings s.kernels s.phases (.inr t) = none := by
        rw [holdings, hphase]
        rfl
      constructor
      · show Owned (holdings s.kernels (Function.update s.phases t (.loading key library _))) _ _
        rw [holdings_phase]
        exact (h.owned.acquire hempty hnew).mono fun _ hmem => List.mem_cons_of_mem _ hmem
      · simp [replay, h.sound, hnew]
  | @call library _ c _ hphase | @callFails library _ c _ hphase =>
      have hholds : holdings s.kernels s.phases (.inr t) = some library := by
        rw [holdings, hphase]
        rfl
      exact h.call c (h.owned.inUse _ _ hholds) (by rw [hphase]; rfl)
  | discard done hphase => exact h.unload done (by rw [hphase]; rfl) rfl
  | unload done hphase =>
      apply h.unload done (by rw [hphase]; rfl)
      split <;> rfl
  | @launchCall k c rest kernel hphase hkernel =>
      have hholds : holdings s.kernels s.phases (.inl k) = some kernel.libraryHandle := by
        rw [holdings, hkernel]
        rfl
      exact h.call c (h.owned.inUse _ _ hholds) (by rw [hphase]; rfl)
  | @loaded library key hphase =>
      have hholds : holdings s.kernels s.phases (.inr t) = some library := by
        rw [holdings, hphase]
        rfl
      have hempty : holdings s.kernels s.phases (.inl s.numKernels) = none := by
        rw [holdings, hrefs.numbered _ (Nat.le_refl _)]
        rfl
      constructor
      · show Owned (holdings (Function.update s.kernels s.numKernels _) (Function.update s.phases t _)) s.libraries _
        rw [holdings_kernel, holdings_phase]
        exact h.owned.move hholds hempty
      · exact h.sound
  | @dropLast k kernel hphase hheld hkernel hlast =>
      have hholds : holdings s.kernels s.phases (.inl k) = some kernel.libraryHandle := by
        rw [holdings, hkernel]
        rfl
      have hempty : holdings s.kernels s.phases (.inr t) = none := by
        rw [holdings, hphase]
        rfl
      constructor
      · show Owned (holdings (Function.update s.kernels k none) (Function.update s.phases t _)) s.libraries _
        rw [holdings_phase, holdings_kernel]
        exact h.owned.move hholds hempty
      · exact h.sound

end

/-! ### Runs -/

structure Inv (backend : Backend) (s : State) : Prop where
  guarded : Guarded backend s.phases s.gil
  refs : RefInv s
  libs : LibraryInv s

section

variable {backend : Backend} {s s' : State} {t k : Nat} {key : Bytes} {kernel : Kernel}

theorem inv_init (hinit : (system backend).init s) : Inv backend s := by
  subst hinit
  refine ⟨fun t => by simp [Phase.holdsGil], ⟨by simp, fun _ _ => rfl, by simp, by simp, by simp [Phase.value]⟩, ?_, rfl⟩
  have hnone : holdings (fun _ => none) (fun _ => Phase.outside) = fun _ => none := by
    funext owner
    cases owner <;> rfl
  show Owned (holdings (fun _ => none) (fun _ => Phase.outside)) _ _
  rw [hnone]
  exact Owned.empty

theorem inv_step (h : Inv backend s) (hstep : (system backend).step s t s') : Inv backend s' :=
  ⟨h.guarded.step hstep, h.refs.step hstep, h.libs.step hstep h.refs⟩

theorem Inv.of_reachable (h : (system backend).Reachable s) : Inv backend s :=
  h.invariant (fun _ => inv_init) fun _ _ _ => inv_step

theorem Inv.usable (h : Inv backend s) (hkernel : s.kernels k = some kernel) : s.Usable kernel.key k :=
  ⟨kernel, hkernel, rfl, h.libs.owned.inUse (.inl k) _ (by rw [holdings, hkernel]; rfl)⟩

theorem Inv.safe (h : Inv backend s) : Safe backend s where
  exclusive t u ht hu := by
    have hgil := (h.guarded t).mp ht
    rw [(h.guarded u).mp hu] at hgil
    exact (Option.some.inj hgil).symm
  sound := h.libs.sound
  cached key k hfind := by
    obtain ⟨kernel, hkernel, rfl⟩ := h.refs.keyed key k (MemCache.mem_of_find hfind)
    exact h.usable hkernel
  returned t key k hphase := by
    obtain ⟨-, hkeyed⟩ := h.refs.used t (some key) k (by rw [hphase]; rfl)
    obtain ⟨kernel, hkernel, rfl⟩ := hkeyed key rfl
    exact h.usable hkernel
  held t k hheld := by
    obtain ⟨kernel, hkernel⟩ := h.refs.exists_of_pos (references_pos hheld)
    exact ⟨kernel.key, h.usable hkernel⟩
  owned k kernel hkernel := by
    obtain ⟨hcount, hpos⟩ := h.refs.counted k kernel hkernel
    refine ⟨owner_of_references (by omega), fun k' kernel' hkernel' hsame => ?_⟩
    have hholds : holdings s.kernels s.phases (.inl k) = some kernel.libraryHandle := by
      rw [holdings, hkernel]
      rfl
    have hholds' : holdings s.kernels s.phases (.inl k') = some kernel.libraryHandle := by
      rw [holdings, hkernel', ← hsame]
      rfl
    exact Sum.inl.inj (h.libs.owned.unique _ _ _ hholds' hholds)
  kept library hloaded := by
    rcases h.libs.owned.kept library hloaded with ⟨owner, howner⟩ | hlost
    · cases owner with
      | inl k =>
          obtain ⟨kernel, hkernel, hlibrary⟩ := Option.map_eq_some_iff.mp howner
          exact .inl ⟨k, kernel, hkernel, hlibrary⟩
      | inr t => exact .inr (.inl ⟨t, howner⟩)
    · exact .inr (.inr hlost)

/-- Requests, launches and releases of any threads in any order use loaded libraries only. A kernel
lives as long as it has an owner, every other library is unloaded, and the cache answers a key with
a kernel that was built for it. -/
theorem kernels_safe (backend : Backend) (s : State) (h : (system backend).Reachable s) : Safe backend s :=
  (Inv.of_reachable h).safe

/-- Only the end of the Runtime takes a key from the cache. -/
theorem Step.find (hstep : Step backend s t s') (halive : s'.alive = true) : s.alive = true ∧
    ∀ key k, MemCache.find s.cache key = some k → MemCache.find s'.cache key = some k := by
  cases hstep with
  | destroy => simp at halive
  | discard done | unload done =>
      cases done with
      | true | false => exact ⟨halive, fun _ _ => id⟩
  | @emplace k' key' =>
      unfold State.emplace at halive ⊢
      split at halive
      · rename_i hfound
        rw [if_pos hfound]
        exact ⟨halive, fun _ _ => id⟩
      · rename_i hnew
        rw [if_neg hnew]
        exact ⟨halive, fun _ _ hfind => MemCache.find_emplace hfind key' k'⟩
  | _ => exact ⟨halive, fun _ _ => id⟩

/-- Once a kernel is cached for a key, all requests for the key get this kernel and its library stays
loaded, until the Runtime goes. -/
theorem cached_kernel_stays (backend : Backend) (s s' : State) (h : (system backend).Reachable s)
    (hrun : (system backend).Run s s') (key : Bytes) (k : Nat) (hfind : MemCache.find s.cache key = some k)
    (halive : s'.alive = true) : MemCache.find s'.cache key = some k ∧ s'.Usable key k := by
  have hkept : s'.alive = true → MemCache.find s'.cache key = some k := by
    refine hrun.invariant (I := fun s => s.alive = true → MemCache.find s.cache key = some k) ?_ fun _ => hfind
    intro s t s' hs hstep hs'
    obtain ⟨halive, hkeeps⟩ := Step.find hstep hs'
    exact hkeeps key k (hs halive)
  exact ⟨hkept halive, (kernels_safe backend s' (h.run hrun)).cached key k (hkept halive)⟩

/-! ### Progress -/

/-- The thread with the GIL can go on until it releases it, whatever the others do. -/
theorem gil_free (h : (system backend).Reachable s) : ∃ s', (system backend).Run s s' ∧ s'.gil = none ∧
    ∀ u, s.gil ≠ some u → s'.phases u = s.phases u := by
  have hinv := Inv.of_reachable h
  cases hgil : s.gil with
  | none => exact ⟨s, TransitionSystem.Run.refl s, hgil, fun _ _ => rfl⟩
  | some t =>
      have hreleases : ∀ s', (system backend).Run s s' → s'.phases t = .python →
          (∀ u, u ≠ t → s'.phases u = s.phases u) → ∃ s', (system backend).Run s s' ∧ s'.gil = none ∧
            ∀ u, some t ≠ some u → s'.phases u = s.phases u := by
        intro s' hrun hphase hothers
        refine ⟨_, hrun.tail (a := t) (Step.release hphase), rfl, fun u hu => ?_⟩
        have hut : u ≠ t := fun heq => hu (congrArg some heq.symm)
        show Function.update s'.phases t .outside u = _
        rw [Function.update_of_ne hut, hothers u hut]
      have hholds := (hinv.guarded t).mpr hgil
      cases hphase : s.phases t with
      | python => exact hreleases s (TransitionSystem.Run.refl s) hphase fun _ _ => rfl
      | emplacing key k =>
          obtain ⟨-, hkeyed⟩ := hinv.refs.used t (some key) k (by rw [hphase]; rfl)
          obtain ⟨kernel, hkernel, -⟩ := hkeyed key rfl
          apply hreleases _ ((TransitionSystem.Run.refl s).tail (a := t) (Step.emplace hphase hkernel))
          · simp [State.goto]
          · intro u hu
            simp [State.goto, Function.update_of_ne hu]
      | unloading library =>
          rw [hphase, Phase.holdsGil, Bool.not_eq_true'] at hholds
          apply hreleases _ ((TransitionSystem.Run.refl s).tail (a := t) (Step.unload true hphase))
          · simp [State.goto, hholds]
          · intro u hu
            simp [State.goto, Function.update_of_ne hu]
      | _ => simp [hphase, Phase.holdsGil] at hholds

theorem returns_of_acquiring (h : (system backend).Reachable s) {value : Option (Bytes × Nat)}
    (hphase : s.phases t = .acquiring value) : ∃ s', (system backend).Run s s' ∧ s'.phases t = .python := by
  obtain ⟨s', hrun, hgil, hothers⟩ := gil_free h
  have hnot : s.gil ≠ some t := by
    rw [Ne, ← (Inv.of_reachable h).guarded t, hphase]
    simp [Phase.holdsGil]
  have hphase' : s'.phases t = .acquiring value := (hothers t hnot).trans hphase
  have hacquired := hrun.tail (a := t) (Step.reacquire hphase' hgil)
  cases value with
  | none => exact ⟨_, hacquired, by simp [State.goto, Phase.acquired]⟩
  | some value =>
      obtain ⟨key, k⟩ := value
      obtain ⟨-, hkeyed⟩ := (Inv.of_reachable (h.run hacquired)).refs.used t (some key) k
        (by simp [State.goto, Phase.acquired, Phase.value])
      obtain ⟨kernel, hkernel, -⟩ := hkeyed key rfl
      refine ⟨_, hacquired.tail (a := t) (@Step.emplace backend _ t k key kernel ?_ hkernel), by simp [State.goto]⟩
      simp [State.goto, Phase.acquired]

/-- A thread that waits for the GIL or works without it can always return to Python: no request and
no launch waits for another one. -/
theorem kernels_return (backend : Backend) (s : State) (h : (system backend).Reachable s) (t : Nat)
    (hinside : s.phases t ≠ .outside) : ∃ s', (system backend).Run s s' ∧ s'.phases t = .python := by
  have hgoes : ∀ s' value, (system backend).Run s s' → s'.phases t = .acquiring value →
      ∃ s', (system backend).Run s s' ∧ s'.phases t = .python := by
    intro s' value hrun hphase
    obtain ⟨s'', hrun', hpython⟩ := returns_of_acquiring (h.run hrun) hphase
    exact ⟨s'', hrun.trans hrun', hpython⟩
  have hthrows : ∀ s' key, (system backend).Run s s' → s'.phases t = .compiling key →
      ∃ s', (system backend).Run s s' ∧ s'.phases t = .python := fun s' key hrun hphase =>
    hgoes _ none (hrun.tail (a := t) (Step.throws hphase)) (by simp [State.goto])
  have hdiscards : ∀ s' key library, (system backend).Run s s' → s'.phases t = .discarding key library →
      ∃ s', (system backend).Run s s' ∧ s'.phases t = .python := fun s' key library hrun hphase =>
    hthrows _ key (hrun.tail (a := t) (Step.discard true hphase)) (by simp [State.goto])
  have hrefl := TransitionSystem.Run.refl (m := system backend) s
  cases hphase : s.phases t with
  | outside => exact absurd hphase hinside
  | python => exact ⟨s, hrefl, hphase⟩
  | compiling key => exact hthrows s key hrefl hphase
  | loading key library rest =>
      cases rest with
      | nil =>
          apply hgoes _ (some (key, s.numKernels)) (hrefl.tail (a := t) (Step.loaded hphase))
          simp [State.goto]
      | cons c rest =>
          exact hdiscards _ key library (hrefl.tail (a := t) (Step.callFails hphase)) (by simp [State.goto])
  | discarding key library => exact hdiscards s key library hrefl hphase
  | acquiring value => exact hgoes s value hrefl hphase
  | emplacing key k =>
      obtain ⟨-, hkeyed⟩ := (Inv.of_reachable h).refs.used t (some key) k (by rw [hphase]; rfl)
      obtain ⟨kernel, hkernel, -⟩ := hkeyed key rfl
      exact ⟨_, hrefl.tail (a := t) (Step.emplace hphase hkernel), by simp [State.goto]⟩
  | launching k rest => exact hgoes _ none (hrefl.tail (a := t) (Step.launched hphase)) (by simp [State.goto])
  | unloading library =>
      have hunloads := hrefl.tail (a := t) (Step.unload true hphase)
      by_cases hreleases : backend.unloadReleasesGil = true
      · exact hgoes _ none hunloads (by simp [State.goto, hreleases])
      · exact ⟨_, hunloads, by simp [State.goto, hreleases]⟩

end

/-- A kernel with one call in each of its driver sequences. -/
def oneCall : Backend := ⟨[.getFunction], Unit, fun _ => [.launchKernel], true⟩

/-- One thread compiles a kernel. -/
theorem oneCall_compiled : ∃ s, (system oneCall).Reachable s ∧ s.phases 0 = .python ∧ s.alive = true ∧
    s.cache = [([7], 0)] ∧ s.held = [(0, 0)] ∧ s.kernels 0 = some ⟨[7], 3, 2⟩ ∧
    s.log = [.called 3 .getFunction, .loaded 3] := by
  have hacquire : (system oneCall).Run {} _ := (TransitionSystem.Run.refl _).tail (a := 0) (Step.acquire rfl rfl)
  have hmiss := hacquire.tail (a := 0) (@Step.miss oneCall _ 0 [7] rfl rfl rfl)
  have hload := hmiss.tail (a := 0) (Step.load (h := 3) rfl rfl)
  have hcall := hload.tail (a := 0) (Step.call rfl)
  have hloaded := hcall.tail (a := 0) (Step.loaded rfl)
  have hreacquire := hloaded.tail (a := 0) (Step.reacquire rfl rfl)
  have hemplace := hreacquire.tail (a := 0) (Step.emplace rfl rfl)
  exact ⟨_, ⟨{}, rfl, hemplace⟩, rfl, rfl, rfl, rfl, rfl, rfl⟩

theorem kernels_safe_compiled : ∃ s, s.log = [.called 3 .getFunction, .loaded 3] ∧ Safe oneCall s := by
  obtain ⟨s, hreach, -, -, -, -, -, hlog⟩ := oneCall_compiled
  exact ⟨s, hlog, kernels_safe oneCall s hreach⟩

/-- The thread drops its pointer. -/
theorem cached_kernel_stays_dropped : ∃ s : State, s.held = [] ∧ MemCache.find s.cache [7] = some 0 ∧ s.Usable [7] 0 := by
  obtain ⟨s, hreach, hphase, halive, hcache, hheld, hkernel, -⟩ := oneCall_compiled
  have hdrop : (system oneCall).Run s (s.drop 0 0 ⟨[7], 3, 2⟩) := (TransitionSystem.Run.refl s).tail (a := 0)
    (Step.drop hphase (by simp [hheld]) hkernel (by decide))
  have hfind : MemCache.find s.cache [7] = some 0 := by rw [hcache]; rfl
  have hnone : (s.drop 0 0 ⟨[7], 3, 2⟩).held = [] := by simp [State.drop, hheld]
  exact ⟨_, hnone, cached_kernel_stays oneCall s _ hreach hdrop [7] 0 hfind halive⟩

/-- The thread is about to launch the kernel. -/
theorem kernels_return_launching : ∃ s s' : State, s.phases 0 = .launching 0 [.launchKernel] ∧
    (system oneCall).Run s s' ∧ s'.phases 0 = .python := by
  obtain ⟨s, hreach, hphase, -, -, hheld, -⟩ := oneCall_compiled
  have hlaunch : (system oneCall).step s 0 { s.goto 0 (.launching 0 [.launchKernel]) with gil := none } :=
    @Step.launch oneCall s 0 0 () hphase (by simp [hheld])
  obtain ⟨s', hrun, hpython⟩ := kernels_return oneCall _ (hreach.tail hlaunch) 0 (by simp [State.goto])
  exact ⟨_, s', by simp [State.goto], hrun, hpython⟩

end DeepJit.Kernels
