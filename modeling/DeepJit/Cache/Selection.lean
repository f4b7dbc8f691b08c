import DeepJit.Cache.Disk
import Mathlib.Data.List.Count
import Mathlib.Data.List.Intervals
import Mathlib.Data.List.Nodup
import Mathlib.Order.Bounds.Basic

/-!
# The root that `entry` selects

With fallback, `entry` returns a hit on the first enabled root that has the entry, and only if there
is none a miss on the first root that can take a new directory. What it performs, and what it
reports, follows from the root alone: a failing root only changes its own counter.
-/

namespace DeepJit

/-! ### Attempts and reports -/

/-- An operation with its root and the way it ended. -/
abbrev Attempt := Operation × Nat × Status

def Event.attempt : Event → Option Attempt
  | .operation _ performed place status => some (performed, place.root, status)
  | _ => none

def Event.reported : Event → Option (Nat × Bool)
  | .report root timeout => some (root, timeout)
  | _ => none

/-- What is reported of an attempt: its root and whether it timed out, if it failed. -/
def failureReport : Attempt → Option (Nat × Bool)
  | (_, root, .failed _) => some (root, false)
  | (_, root, .late) => some (root, true)
  | _ => none

/-- Between two states the attempts were performed, in this order, each failing one of them was
reported once, and nothing else was. -/
structure Session.Performs (s s' : Session) (attempts : List Attempt) : Prop where
  log : ∃ events, s'.log = events ++ s.log ∧ events.reverse.filterMap Event.attempt = attempts ∧
    events.reverse.filterMap Event.reported = attempts.filterMap failureReport
  numTimeouts : ∀ root,
    s'.numTimeouts root = s.numTimeouts root + (attempts.filterMap failureReport).count (root, true)

namespace Session.Performs

variable {s s₁ s₂ : Session} {attempts attempts₁ attempts₂ : List Attempt}

theorem refl (s : Session) : s.Performs s [] := ⟨⟨[], by simp⟩, by simp⟩

theorem trans (h₁ : s.Performs s₁ attempts₁) (h₂ : s₁.Performs s₂ attempts₂) :
    s.Performs s₂ (attempts₁ ++ attempts₂) := by
  obtain ⟨events₁, hlog₁, hattempts₁, hreports₁⟩ := h₁.log
  obtain ⟨events₂, hlog₂, hattempts₂, hreports₂⟩ := h₂.log
  refine ⟨⟨events₂ ++ events₁, ?_, ?_, ?_⟩, ?_⟩
  · rw [hlog₂, hlog₁, List.append_assoc]
  · rw [List.reverse_append, List.filterMap_append, hattempts₁, hattempts₂]
  · rw [List.reverse_append, List.filterMap_append, hreports₁, hreports₂, List.filterMap_append]
  · intro root
    rw [h₂.numTimeouts, h₁.numTimeouts, List.filterMap_append, List.count_append, Nat.add_assoc]

/-- A root without a report keeps its counter. -/
theorem numTimeouts_eq (h : s.Performs s₁ attempts) {root : Nat}
    (hroot : ∀ attempt ∈ attempts, attempt.2.1 = root → failureReport attempt = none) :
    s₁.numTimeouts root = s.numTimeouts root := by
  rw [h.numTimeouts, List.count_eq_zero_of_not_mem, Nat.add_zero]
  intro hmem
  obtain ⟨⟨operation, root', status⟩, hattempt, hreport⟩ := List.mem_filterMap.mp hmem
  have hsame : root' = root := by
    cases status with
    | done => simp [failureReport] at hreport
    | absent => simp [failureReport] at hreport
    | failed what => simp [failureReport] at hreport
    | late => simpa [failureReport] using hreport
  rw [hroot _ hattempt hsame] at hreport
  simp at hreport

theorem check (s : Session) (client : Client) (root : Nat) :
    s.Performs (s.checkTimeouts client root).2 [] :=
  ⟨⟨[.check client root (decide (3 ≤ s.numTimeouts root))], rfl, rfl, rfl⟩, fun _ => rfl⟩

theorem lookup (s : Session) (client : Client) (root : Nat) (entryName : Bytes) (hit : Bool) :
    s.Performs
      (s.record (.operation client .lookup (.cache root entryName) (if hit then .done else .absent)))
      [(.lookup, root, if hit then .done else .absent)] := by
  refine ⟨⟨[.operation client .lookup (.cache root entryName) (if hit then .done else .absent)], rfl,
    rfl, ?_⟩, ?_⟩
  · cases hit <;> rfl
  · cases hit <;> exact fun _ => rfl

theorem filterMap_failureReport (kind : Operation) (root : Nat) (error : Exn) :
    [(kind, root, Status.of (.error error : Except Exn Unit))].filterMap failureReport =
      [(root, error.isTimeout)] := by
  cases error <;> rfl

theorem count_report (root root' : Nat) (timeout : Bool) :
    [(root, timeout)].count (root', true) = if timeout = true ∧ root' = root then 1 else 0 := by
  by_cases hroot : root' = root
  · cases timeout <;> simp [hroot]
  · have hne : root ≠ root' := fun h => hroot h.symm
    simp [hroot, hne]

theorem lookupFailed (s : Session) (client : Client) (root : Nat) (entryName : Bytes) (error : Exn) :
    s.Performs
      ((s.record (.operation client .lookup (.cache root entryName)
        (.of (.error error : Except Exn Unit)))).reportError root error)
      [(.lookup, root, .of (.error error : Except Exn Unit))] := by
  refine ⟨⟨[.report root error.isTimeout,
    .operation client .lookup (.cache root entryName) (.of (.error error : Except Exn Unit))], rfl,
    rfl, ?_⟩, ?_⟩
  · rw [filterMap_failureReport]
    rfl
  · intro root'
    rw [Session.reportError_numTimeouts, filterMap_failureReport, count_report, Session.record_numTimeouts]

theorem setUp (s : Session) (client : Client) (root : Nat) :
    s.Performs (s.setUp client root true .done) [(.setup, root, .done)] :=
  ⟨⟨[.operation client .setup (.temporary root s.uuids) .done, .created (.temporary root s.uuids)],
    rfl, rfl, rfl⟩, fun _ => rfl⟩

theorem setUpFailed (s : Session) (client : Client) (root : Nat) (creates : Bool) (error : Exn) :
    s.Performs
      ((s.setUp client root creates (.of (.error error : Except Exn Unit))).reportError root error)
      [(.setup, root, .of (.error error : Except Exn Unit))] := by
  refine ⟨⟨.report root error.isTimeout ::
    .operation client .setup (.temporary root s.uuids) (.of (.error error : Except Exn Unit)) ::
      if creates then [.created (.temporary root s.uuids)] else [], ?_, ?_, ?_⟩, ?_⟩
  · cases creates <;> rfl
  · cases creates <;> rfl
  · rw [filterMap_failureReport]
    cases creates <;> rfl
  · intro root'
    rw [Session.reportError_numTimeouts, filterMap_failureReport, count_report]
    rfl

end Session.Performs

/-! ### What the tasks of a root say -/

namespace EntryOutcomes

variable (o : EntryOutcomes) (s : Session)

def lookupStatus (root : Nat) : Status :=
  match runInIothread false (o.lookup root) with
  | .ok hit => if hit then .done else .absent
  | .error error => .of (.error error : Except Exn Unit)

def setupStatus (root : Nat) : Status :=
  match runInIothread false (o.setup root).task with
  | .ok _ => .done
  | .error error => .of (.error error : Except Exn Unit)

/-- The lookup of the root raises an exception. -/
def lookupFails (root : Nat) : Bool :=
  match runInIothread false (o.lookup root) with
  | .ok _ => false
  | .error _ => true

/-- An enabled root with the marker of the entry. -/
def Finds (root : Nat) : Prop :=
  s.numTimeouts root < 3 ∧ runInIothread false (o.lookup root) = .ok true

/-- A root that a new directory may go to: enabled, and its lookup did not fail. -/
def Takes (root : Nat) : Prop := s.numTimeouts root < 3 ∧ o.lookupFails root = false

/-- A root where a new directory can be set up. -/
def SetsUp (root : Nat) : Prop :=
  o.Takes s root ∧ ∃ shared, runInIothread false (o.setup root).task = .ok shared

instance (root : Nat) : Decidable (o.Takes s root) := inferInstanceAs (Decidable (_ ∧ _))

/-- The lookups of the enabled ones of these roots. -/
def lookups (roots : List Nat) : List Attempt :=
  roots.filterMap fun root => if s.numTimeouts root < 3 then some (.lookup, root, o.lookupStatus root) else none

def failedLookups (roots : List Nat) : List Nat :=
  roots.filter fun root => decide (s.numTimeouts root < 3) && o.lookupFails root

/-- The setups on the ones of these roots that may take a directory. -/
def setups (roots : List Nat) : List Attempt :=
  roots.filterMap fun root => if o.Takes s root then some (.setup, root, o.setupStatus root) else none

end EntryOutcomes

/-! ### The two passes -/

section

variable {cache : DiskCache} {first : Nat} {o : EntryOutcomes} {s₀ : Session} (client : Client)
  (entryName : Bytes)

/-- In front of the roots that have the entry, the first pass looks up the enabled ones and goes
on. -/
theorem lookupPass_append (before rest : List (Root cache first)) (failed : List Nat) {s : Session}
    (hdistinct : before.Nodup) (hfinds : ∀ i ∈ before, ¬o.Finds s₀ i)
    (hcount : ∀ i ∈ before, s.numTimeouts i = s₀.numTimeouts i) :
    ∃ s₁, s.Performs s₁ (o.lookups s₀ (before.map Subtype.val)) ∧
      DiskCache.lookupPass false client entryName o.lookup (before ++ rest) failed s =
        DiskCache.lookupPass false client entryName o.lookup rest
          (failed ++ o.failedLookups s₀ (before.map Subtype.val)) s₁ := by
  induction before generalizing failed s with
  | nil => exact ⟨s, .refl s, by simp [EntryOutcomes.failedLookups]⟩
  | cons i before ih =>
      rw [List.nodup_cons] at hdistinct
      have hcheck := Session.Performs.check s client i
      have hi := hcount i List.mem_cons_self
      have hrest : ∀ k ∈ before, k ≠ i := fun k hk hki => hdistinct.1 (hki ▸ hk)
      -- What remains is looked up from a state in which only the counter of `i` can differ.
      have hgo : ∀ s₁ failed' attempts, s.Performs s₁ attempts →
          (∀ attempt ∈ attempts, attempt.2.1 = i.val) →
          o.lookups s₀ ((i :: before).map Subtype.val) =
            attempts ++ o.lookups s₀ (before.map Subtype.val) →
          failed' ++ o.failedLookups s₀ (before.map Subtype.val) =
            failed ++ o.failedLookups s₀ ((i :: before).map Subtype.val) →
          ∃ s₂, s.Performs s₂ (o.lookups s₀ ((i :: before).map Subtype.val)) ∧
            DiskCache.lookupPass false client entryName o.lookup (before ++ rest) failed' s₁ =
              DiskCache.lookupPass false client entryName o.lookup rest
                (failed ++ o.failedLookups s₀ ((i :: before).map Subtype.val)) s₂ := by
        intro s₁ failed' attempts hperforms hroot hattempts hfailed
        have hcount' : ∀ k ∈ before, s₁.numTimeouts k = s₀.numTimeouts k := by
          intro k hk
          rw [← hcount k (List.mem_cons_of_mem _ hk)]
          refine hperforms.numTimeouts_eq fun attempt hattempt hk' => ?_
          have hki : k.val = i.val := by rw [← hk', hroot attempt hattempt]
          exact absurd (Subtype.ext hki) (hrest k hk)
        obtain ⟨s₂, hperforms₂, hpass⟩ :=
          ih failed' hdistinct.2 (fun k hk => hfinds k (List.mem_cons_of_mem _ hk)) hcount'
        refine ⟨s₂, ?_, ?_⟩
        · rw [hattempts]
          exact hperforms.trans hperforms₂
        · rw [hpass, hfailed]
      rw [List.cons_append, DiskCache.lookupPass]
      by_cases hskipped : 3 ≤ s.numTimeouts i
      · have hlow : ¬s₀.numTimeouts i < 3 := by omega
        simp only [Session.checkTimeouts, hskipped, decide_true, if_true] at hcheck ⊢
        apply hgo _ _ [] hcheck
        · simp
        · simp [EntryOutcomes.lookups, hlow]
        · simp [EntryOutcomes.failedLookups, hlow]
      · have hlow : s₀.numTimeouts i < 3 := by omega
        simp only [Session.checkTimeouts, hskipped, decide_false, Bool.false_eq_true, if_false] at hcheck ⊢
        cases htask : runInIothread false (o.lookup i) with
        | ok hit =>
            have hhit : hit = false := by
              cases hit with
              | false => rfl
              | true => exact absurd ⟨hlow, htask⟩ (hfinds i List.mem_cons_self)
            subst hhit
            apply hgo _ _ _ (hcheck.trans (.lookup _ client i entryName false))
            · simp
            · simp [EntryOutcomes.lookups, hlow, EntryOutcomes.lookupStatus, htask]
            · simp [EntryOutcomes.failedLookups, EntryOutcomes.lookupFails, htask]
        | error error =>
            apply hgo _ _ _ (hcheck.trans (.lookupFailed _ client i entryName error))
            · simp
            · simp [EntryOutcomes.lookups, hlow, EntryOutcomes.lookupStatus, htask]
            · simp [EntryOutcomes.failedLookups, EntryOutcomes.lookupFails, hlow, htask]

/-- The first pass ends at a root that has the entry. -/
theorem lookupPass_finds {i : Root cache first} (rest : List (Root cache first)) (failed : List Nat)
    {s : Session} (hfinds : o.Finds s₀ i) (hcount : s.numTimeouts i = s₀.numTimeouts i) :
    ∃ s₁, s.Performs s₁ (o.lookups s₀ [i.val]) ∧
      DiskCache.lookupPass false client entryName o.lookup (i :: rest) failed s = (.ok (some i, failed), s₁) := by
  have hlow := hfinds.1
  have hskipped : ¬3 ≤ s.numTimeouts i := by omega
  have hcheck := Session.Performs.check s client i
  rw [DiskCache.lookupPass]
  simp only [Session.checkTimeouts, hskipped, decide_false, Bool.false_eq_true, if_false, hfinds.2,
    if_true] at hcheck ⊢
  refine ⟨_, ?_, rfl⟩
  have hlookup := hcheck.trans (.lookup _ client i entryName true)
  simpa [EntryOutcomes.lookups, hfinds.1, EntryOutcomes.lookupStatus, hfinds.2] using hlookup

/-- In front of the roots where a directory can be set up, the second pass tries those that may take
one and goes on. -/
theorem setupPass_append (before rest : List (Root cache first)) (failed : List Nat) {s : Session}
    (hdistinct : before.Nodup) (hsetsUp : ∀ i ∈ before, ¬o.SetsUp s₀ i)
    (htakes : ∀ i ∈ before, o.Takes s₀ i ↔ s.numTimeouts i < 3 ∧ i.val ∉ failed) :
    ∃ s₁, s.Performs s₁ (o.setups s₀ (before.map Subtype.val)) ∧
      DiskCache.setupPass false client entryName o failed (before ++ rest) s =
        DiskCache.setupPass false client entryName o failed rest s₁ := by
  induction before generalizing s with
  | nil => exact ⟨s, .refl s, rfl⟩
  | cons i before ih =>
      rw [List.nodup_cons] at hdistinct
      have hcheck := Session.Performs.check s client i
      have hi := htakes i List.mem_cons_self
      have hrest : ∀ k ∈ before, k ≠ i := fun k hk hki => hdistinct.1 (hki ▸ hk)
      have hgo : ∀ s₁ attempts, s.Performs s₁ attempts →
          (∀ attempt ∈ attempts, attempt.2.1 = i.val) →
          o.setups s₀ ((i :: before).map Subtype.val) =
            attempts ++ o.setups s₀ (before.map Subtype.val) →
          ∃ s₂, s.Performs s₂ (o.setups s₀ ((i :: before).map Subtype.val)) ∧
            DiskCache.setupPass false client entryName o failed (before ++ rest) s₁ =
              DiskCache.setupPass false client entryName o failed rest s₂ := by
        intro s₁ attempts hperforms hroot hattempts
        have htakes' : ∀ k ∈ before, o.Takes s₀ k ↔ s₁.numTimeouts k < 3 ∧ k.val ∉ failed := by
          intro k hk
          rw [htakes k (List.mem_cons_of_mem _ hk), hperforms.numTimeouts_eq]
          intro attempt hattempt hk'
          have hki : k.val = i.val := by rw [← hk', hroot attempt hattempt]
          exact absurd (Subtype.ext hki) (hrest k hk)
        obtain ⟨s₂, hperforms₂, hpass⟩ :=
          ih hdistinct.2 (fun k hk => hsetsUp k (List.mem_cons_of_mem _ hk)) htakes'
        refine ⟨s₂, ?_, hpass⟩
        rw [hattempts]
        exact hperforms.trans hperforms₂
      rw [List.cons_append, DiskCache.setupPass]
      by_cases hopen : o.Takes s₀ i
      · have hlow := hi.mp hopen
        have hskipped : ¬3 ≤ s.numTimeouts i := by omega
        simp only [Session.checkTimeouts, hskipped, decide_false, Bool.false_or, List.contains_iff_mem,
          hlow.2, if_false] at hcheck ⊢
        cases htask : runInIothread false (o.setup i).task with
        | ok shared => exact absurd ⟨hopen, shared, htask⟩ (hsetsUp i List.mem_cons_self)
        | error error =>
            apply hgo _ _ (hcheck.trans (.setUpFailed _ client i (o.setup i).creates error))
            · simp
            · simp [EntryOutcomes.setups, hopen, EntryOutcomes.setupStatus, htask]
      · have hskipped : (decide (3 ≤ s.numTimeouts i) || failed.contains i.val) = true := by
          rw [hi, not_and_or, not_not] at hopen
          rw [Bool.or_eq_true, decide_eq_true_eq, List.contains_iff_mem]
          exact hopen.imp (fun h => by omega) id
        simp only [Session.checkTimeouts, hskipped, if_true] at hcheck ⊢
        apply hgo _ [] hcheck
        · simp
        · simp [EntryOutcomes.setups, hopen]

/-- The second pass ends at a root where a directory can be set up. -/
theorem setupPass_setsUp {i : Root cache first} (rest : List (Root cache first)) (failed : List Nat)
    {s : Session} (hsetsUp : o.SetsUp s₀ i) (htakes : s.numTimeouts i < 3 ∧ i.val ∉ failed) :
    ∃ entry s₁, s.Performs s₁ (o.setups s₀ [i.val]) ∧ entry.root = i ∧ entry.hit = false ∧
      (∃ uuid, entry.path = .temporary i uuid) ∧ entry.commitPath = some (.cache i entryName) ∧
      DiskCache.setupPass false client entryName o failed (i :: rest) s = (.ok entry, s₁) := by
  obtain ⟨hopen, shared, htask⟩ := hsetsUp
  have hskipped : ¬3 ≤ s.numTimeouts i := by omega
  have hcheck := Session.Performs.check s client i
  rw [DiskCache.setupPass]
  simp only [Session.checkTimeouts, hskipped, decide_false, Bool.false_or, List.contains_iff_mem,
    htakes.2, if_false, htask] at hcheck ⊢
  refine ⟨_, _, ?_, rfl, rfl, ⟨_, rfl⟩, rfl, rfl⟩
  have hsetup := hcheck.trans (.setUp _ client i)
  simpa [EntryOutcomes.setups, hopen, EntryOutcomes.setupStatus, htask] using hsetup

/-- A root that is not looked up keeps its counter. -/
theorem numTimeouts_of_lookups {s s₁ : Session} {roots : List Nat} (h : s.Performs s₁ (o.lookups s roots))
    {i : Nat} (hi : i ∉ roots ∨ o.lookupFails i = false) : s₁.numTimeouts i = s.numTimeouts i := by
  refine h.numTimeouts_eq fun attempt hattempt hroot => ?_
  obtain ⟨root, hmem, heq⟩ := List.mem_filterMap.mp hattempt
  by_cases hlow : s.numTimeouts root < 3
  · rw [if_pos hlow, Option.some.injEq] at heq
    subst heq
    obtain rfl : root = i := hroot
    have hnone : o.lookupFails root = false := hi.resolve_left fun hnot => hnot hmem
    unfold EntryOutcomes.lookupFails at hnone
    unfold EntryOutcomes.lookupStatus
    cases htask : runInIothread false (o.lookup root) with
    | ok hit => cases hit <;> rfl
    | error error => simp [htask] at hnone
  · simp [hlow] at heq

theorem numTimeouts_of_setups {s s₁ s₂ : Session} {roots : List Nat}
    (h : s₁.Performs s₂ (o.setups s roots)) {i : Nat} (hi : i ∉ roots) :
    s₂.numTimeouts i = s₁.numTimeouts i := by
  refine h.numTimeouts_eq fun attempt hattempt hroot => ?_
  obtain ⟨root, hmem, heq⟩ := List.mem_filterMap.mp hattempt
  by_cases htakes : o.Takes s root
  · rw [if_pos htakes, Option.some.injEq] at heq
    subst heq
    obtain rfl : root = i := hroot
    exact absurd hmem hi
  · simp [htakes] at heq

/-- After the first pass, the roots that may take a directory are those of the second pass. -/
theorem takes_iff {s s₁ : Session} {roots : List Nat} (h : s.Performs s₁ (o.lookups s roots)) {i : Nat}
    (hi : i ∈ roots) : o.Takes s i ↔ s₁.numTimeouts i < 3 ∧ i ∉ o.failedLookups s roots := by
  have hmono : s.numTimeouts i ≤ s₁.numTimeouts i := by
    rw [h.numTimeouts]
    omega
  constructor
  · intro htakes
    have hkept := numTimeouts_of_lookups h (.inr htakes.2)
    refine ⟨?_, ?_⟩
    · rw [hkept]
      exact htakes.1
    · simp [EntryOutcomes.failedLookups, htakes.2]
  · rintro ⟨hlow, hfailed⟩
    have hlow' : s.numTimeouts i < 3 := by omega
    refine ⟨hlow', ?_⟩
    simpa [EntryOutcomes.failedLookups, hi, hlow'] using hfailed

end

/-! ### The selection -/

section

variable (cache : DiskCache) (first : Nat)

theorem map_roots : (cache.roots first).map Subtype.val = List.Ico first cache.paths.length := by
  simp [DiskCache.roots, List.Ico, List.map_pmap]

theorem nodup_roots : (cache.roots first).Nodup := by
  apply List.Nodup.of_map Subtype.val
  rw [map_roots]
  exact List.Ico.nodup _ _

variable {cache first}

/-- The roots in front of a root. -/
theorem roots_split (i : Root cache first) :
    ∃ before after, cache.roots first = before ++ i :: after ∧ before.map Subtype.val = List.Ico first i := by
  have hroots := map_roots cache first
  rw [← List.Ico.append_consecutive i.2.1 i.2.2.le, List.Ico.eq_cons i.2.2, List.map_eq_append_iff] at hroots
  obtain ⟨before, rest, hsplit, hbefore, hrest⟩ := hroots
  obtain ⟨i', after, rfl, hi, -⟩ := List.map_eq_cons_iff.mp hrest
  obtain rfl : i' = i := Subtype.ext hi
  exact ⟨before, after, hsplit, hbefore⟩

theorem lt_of_mem_before {before : List (Root cache first)} {i : Root cache first}
    (hbefore : before.map Subtype.val = List.Ico first i) {k : Root cache first} (hk : k ∈ before) :
    k.val < i := by
  have hmem : k.val ∈ List.Ico first i := hbefore ▸ List.mem_map_of_mem hk
  exact (List.Ico.mem.mp hmem).2

end

/-- With fallback, `entry` returns a hit on the first enabled root whose lookup finds the entry. If
there is none it returns a miss on the first root that is enabled, whose lookup did not fail, and
whose setup succeeds, and if there is none either it raises an exception. In every case the lookups
and the setups that it performs are those of the roots up to the result that may have one, and the
failing ones are reported, once each and on their own roots. -/
theorem entry_selects_root (cache : DiskCache) (client : Client) {tag : Bytes}
    (htag : isValidTag tag = true) (digest : Bytes) (o : EntryOutcomes) (first : Nat) (s : Session) :
    (∀ i, IsLeast {i | first ≤ i ∧ i < cache.paths.length ∧ o.Finds s i} i →
      ∃ entry s', cache.entry false client tag digest o first s = (.ok entry, s') ∧
        entry.root.val = i ∧ entry.hit = true ∧ entry.path = .cache i (tag ++ bytes "." ++ digest) ∧
        s.Performs s' (o.lookups s (List.Ico first (i + 1)))) ∧
    ((∀ i, first ≤ i → i < cache.paths.length → ¬o.Finds s i) →
      (∀ j, IsLeast {j | first ≤ j ∧ j < cache.paths.length ∧ o.SetsUp s j} j →
        ∃ entry s', cache.entry false client tag digest o first s = (.ok entry, s') ∧
          entry.root.val = j ∧ entry.hit = false ∧ (∃ uuid, entry.path = .temporary j uuid) ∧
          entry.commitPath = some (.cache j (tag ++ bytes "." ++ digest)) ∧
          s.Performs s' (o.lookups s (List.Ico first cache.paths.length) ++
            o.setups s (List.Ico first (j + 1)))) ∧
      ((∀ j, first ≤ j → j < cache.paths.length → ¬o.SetsUp s j) →
        ∃ s', cache.entry false client tag digest o first s =
            (.error (djPanic o.site (bytes "all cache roots failed")), s') ∧
          s.Performs s' (o.lookups s (List.Ico first cache.paths.length) ++
            o.setups s (List.Ico first cache.paths.length)))) := by
  unfold DiskCache.entry
  simp only [htag, Bool.not_true, Bool.false_eq_true, if_false]
  refine ⟨?_, ?_⟩
  · intro i hi
    obtain ⟨⟨hfirst, hlast, hfinds⟩, hleast⟩ := hi
    obtain ⟨before, after, hsplit, hbefore⟩ := roots_split ⟨i, hfirst, hlast⟩
    have hdistinct := nodup_roots cache first
    rw [hsplit] at hdistinct ⊢
    have hnone : ∀ k ∈ before, ¬o.Finds s k := by
      intro k hk hfound
      have hle : i ≤ k.val := hleast ⟨k.2.1, k.2.2, hfound⟩
      have hlt : k.val < i := lt_of_mem_before hbefore hk
      omega
    obtain ⟨s₁, hbegin, hpass⟩ := lookupPass_append client (tag ++ bytes "." ++ digest) before
      (⟨i, hfirst, hlast⟩ :: after) [] hdistinct.of_append_left hnone fun _ _ => rfl
    rw [hbefore] at hbegin hpass
    have hcount := numTimeouts_of_lookups hbegin (.inl List.Ico.notMem_top)
    obtain ⟨s₂, hend, hfound⟩ := lookupPass_finds client (tag ++ bytes "." ++ digest) after
      ([] ++ o.failedLookups s (List.Ico first i)) hfinds hcount
    rw [hpass, hfound]
    refine ⟨_, _, rfl, rfl, rfl, rfl, ?_⟩
    rw [List.Ico.succ_top hfirst, EntryOutcomes.lookups, List.filterMap_append]
    exact hbegin.trans hend
  · intro hnone
    obtain ⟨s₁, hlookups, hpass⟩ := lookupPass_append client (tag ++ bytes "." ++ digest)
      (cache.roots first) [] [] (nodup_roots cache first) (fun k _ => hnone k k.2.1 k.2.2) fun _ _ => rfl
    rw [List.append_nil, List.nil_append, map_roots] at hpass
    rw [map_roots] at hlookups
    have htakes : ∀ k : Root cache first, o.Takes s k ↔
        s₁.numTimeouts k < 3 ∧ k.val ∉ o.failedLookups s (List.Ico first cache.paths.length) :=
      fun k => takes_iff hlookups (List.Ico.mem.mpr k.2)
    rw [hpass, DiskCache.lookupPass]
    refine ⟨?_, ?_⟩
    · intro j hj
      obtain ⟨⟨hfirst, hlast, hsetsUp⟩, hleast⟩ := hj
      obtain ⟨before, after, hsplit, hbefore⟩ := roots_split ⟨j, hfirst, hlast⟩
      have hdistinct := nodup_roots cache first
      rw [hsplit] at hdistinct ⊢
      have hbusy : ∀ k ∈ before, ¬o.SetsUp s k := by
        intro k hk hset
        have hle : j ≤ k.val := hleast ⟨k.2.1, k.2.2, hset⟩
        have hlt : k.val < j := lt_of_mem_before hbefore hk
        omega
      obtain ⟨s₂, hbegin, hskip⟩ := setupPass_append client (tag ++ bytes "." ++ digest) before
        (⟨j, hfirst, hlast⟩ :: after) _ hdistinct.of_append_left hbusy fun k _ => htakes k
      rw [hbefore] at hbegin
      have hcount := numTimeouts_of_setups hbegin List.Ico.notMem_top
      have hopen := (htakes ⟨j, hfirst, hlast⟩).mp hsetsUp.1
      rw [← hcount] at hopen
      obtain ⟨entry, s₃, hend, hroot, hmiss, hpath, hcommit, hentry⟩ :=
        setupPass_setsUp client (tag ++ bytes "." ++ digest) after _ hsetsUp hopen
      dsimp only
      rw [hskip, hentry]
      refine ⟨entry, s₃, rfl, ?_, hmiss, hpath, hcommit, ?_⟩
      · rw [hroot]
      · rw [List.Ico.succ_top hfirst, EntryOutcomes.setups, List.filterMap_append]
        exact hlookups.trans (hbegin.trans hend)
    · intro hbusy
      obtain ⟨s₂, hsetups, hskip⟩ := setupPass_append client (tag ++ bytes "." ++ digest)
        (cache.roots first) [] _ (nodup_roots cache first) (fun k _ => hbusy k k.2.1 k.2.2) fun k _ => htakes k
      rw [List.append_nil] at hskip
      rw [map_roots] at hsetups
      dsimp only
      rw [hskip, DiskCache.setupPass]
      exact ⟨s₂, rfl, hlookups.trans hsetups⟩

/-- Three roots: the lookup on the first is late, the second is disabled, the third has the
entry. -/
def DiskCache.threeRoots : DiskCache := ⟨[bytes "/a", bytes "/b", bytes "/c"], by decide⟩

def Session.secondDisabled : Session := { numTimeouts := fun root => if root = 1 then 3 else 0 }

def EntryOutcomes.lateThenFound : EntryOutcomes where
  lookup root := { result := .ok true, late := root = 0 }
  setup _ := { task := { result := .ok false } }
  site := { file_noNul := List.not_mem_nil }

theorem entry_selects_root_lateThenFound :
    isValidTag (bytes "kernel") = true ∧
    IsLeast {i | 0 ≤ i ∧ i < DiskCache.threeRoots.paths.length ∧
      EntryOutcomes.lateThenFound.Finds .secondDisabled i} 2 ∧
    ∃ (entry : DiskCacheEntry DiskCache.threeRoots 0) (s' : Session),
      DiskCache.threeRoots.entry false .runtime (bytes "kernel") [] .lateThenFound 0 .secondDisabled =
        (.ok entry, s') ∧
      entry.root.val = 2 ∧ entry.hit = true ∧
      Session.secondDisabled.Performs s' [(.lookup, 0, .late), (.lookup, 2, .done)] := by
  have htag : isValidTag (bytes "kernel") = true := by decide
  have hleast : IsLeast {i | 0 ≤ i ∧ i < DiskCache.threeRoots.paths.length ∧
      EntryOutcomes.lateThenFound.Finds .secondDisabled i} 2 := by
    refine ⟨⟨by omega, by decide, by decide, rfl⟩, ?_⟩
    rintro i ⟨-, hi, hlow, hfound⟩
    match i with
    | 0 => exact absurd hfound (by decide)
    | 1 => exact absurd hlow (by decide)
    | i + 2 => omega
  obtain ⟨entry, s', hentry, hroot, hhit, -, hperforms⟩ :=
    (entry_selects_root .threeRoots .runtime htag [] .lateThenFound 0 .secondDisabled).1 2 hleast
  exact ⟨htag, hleast, entry, s', hentry, hroot, hhit, hperforms⟩

end DeepJit
