import DeepJit.Runtime.RequestRules

/-!
# Completeness of the fallback

Why a request that failed did not succeed on some root. Its rounds move on behind the root of the
entry they obtained. The roots before that root were skipped, or failed in `entry`, or only missed:
the last when a later root had a hit, and they are not looked at again when the hit then fails to
load.
-/

namespace DeepJit

/-! ### What a log says about a root -/

/-- `entry` found the root disabled. -/
def SkippedIn (log : List Event) (root : Nat) : Prop := .check .runtime root true ∈ log

def Status.isFailure : Status → Bool
  | .failed _ | .late => true
  | _ => false

/-- A lookup, a setup or the work of the request fails on the root. -/
def Event.isFailureOn (root : Nat) : Event → Bool
  | .operation .runtime kind place status => kind != .cleanup && place.root == root && status.isFailure
  | _ => false

def FailedIn (log : List Event) (root : Nat) : Prop := ∃ event ∈ log, event.isFailureOn root = true

/-- The root missed, then a later root had a hit, then an operation on that hit failed. -/
def PassedOver (entryName : Bytes) (log : List Event) (root : Nat) : Prop :=
  ∃ later kind status, root < later ∧ kind.isWork = true ∧ status.isFailure = true ∧
    [.operation .runtime kind (.cache later entryName) status,
      .operation .runtime .lookup (.cache later entryName) .done,
      .operation .runtime .lookup (.cache root entryName) .absent].Sublist log

def Accounted (entryName : Bytes) (log : List Event) (root : Nat) : Prop :=
  SkippedIn log root ∨ FailedIn log root ∨ PassedOver entryName log root

section

variable {entryName : Bytes} {log log' : List Event} {root : Nat}

theorem FailedIn.mono (h : FailedIn log root) (hlog : log <:+ log') : FailedIn log' root := by
  obtain ⟨event, hmem, hevent⟩ := h
  exact ⟨event, hlog.subset hmem, hevent⟩

theorem failedIn_of_mem (kind : Operation) (place : Place) {status : Status}
    (hkind : kind ≠ .cleanup)
    (hstatus : status.isFailure = true) (hmem : .operation .runtime kind place status ∈ log) :
    FailedIn log place.root :=
  ⟨_, hmem, by simp [Event.isFailureOn, hkind, hstatus]⟩

theorem Accounted.mono (h : Accounted entryName log root) (hlog : log <:+ log') :
    Accounted entryName log' root := by
  rcases h with h | h | ⟨later, kind, status, hlater, hkind, hstatus, hsub⟩
  · exact .inl (hlog.subset h)
  · exact .inr (.inl (h.mono hlog))
  · exact .inr (.inr ⟨later, kind, status, hlater, hkind, hstatus, hsub.trans hlog.sublist⟩)

theorem isFailure_of_raised {fallbackDisabled : Bool} {error : Exn} {kind : Operation}
    {status : Status}
    (h : Raised fallbackDisabled error kind status) : status.isFailure = true := by
  cases h <;> rfl

end

/-- Requests only add to the log. -/
theorem suffix_requestInvariant (log : List Event) : RequestInvariant fun s => log <:+ s.log where
  check client root hs := hs.trans (List.suffix_cons _ _)
  lookup client entryName status hs _ := hs.trans (List.suffix_cons _ _)
  setUp {s root} client creates status hs _ := by
    cases creates with
    | true => exact (hs.trans (List.suffix_cons _ _)).trans (List.suffix_cons _ _)
    | false => exact hs.trans (List.suffix_cons _ _)
  record _ hs := hs.trans (List.suffix_cons _ _)
  report root error hs := hs.trans (List.suffix_cons _ _)
  bootstrap hs := hs

/-! ### The two passes of `entry` -/

theorem DiskCache.mem_roots {cache : DiskCache} {first : Nat} (i : Root cache first) :
    i ∈ cache.roots first := by
  have hi := i.2
  rw [DiskCache.roots, List.mem_pmap]
  refine ⟨i.val, ?_, rfl⟩
  rw [List.mem_range'_1]
  omega

theorem DiskCache.roots_sorted (cache : DiskCache) (first : Nat) :
    (cache.roots first).Pairwise fun i j => i.val < j.val := by
  rw [DiskCache.roots, List.pairwise_pmap]
  exact List.Pairwise.imp (fun hlt _ _ => hlt) (List.pairwise_lt_range' ..)

section

variable {cache : DiskCache} {first : Nat} {entryName : Bytes}

/-- A root before the hit, in the log before it. -/
def BeforeHit (entryName : Bytes) (log : List Event) (root : Nat) : Prop :=
  SkippedIn log root ∨ FailedIn log root ∨
    .operation .runtime .lookup (.cache root entryName) .absent ∈ log

theorem BeforeHit.mono {log log' : List Event} {root : Nat} (h : BeforeHit entryName log root)
    (hlog : log <:+ log') : BeforeHit entryName log' root := by
  rcases h with h | h | h
  · exact .inl (hlog.subset h)
  · exact .inr (.inl (h.mono hlog))
  · exact .inr (.inr (hlog.subset h))

/-- What the first pass over some roots leaves. -/
def Looked (entryName : Bytes) (roots : List (Root cache first)) (log : List Event)
    (out : Option (Root cache first) × List Nat) (s : Session) : Prop :=
  log <:+ s.log ∧ (∀ j ∈ out.2, FailedIn s.log j) ∧
    ∀ i, out.1 = some i → ∃ rest, s.log = .operation .runtime .lookup (.cache i entryName) .done :: rest ∧
      log <:+ rest ∧ ∀ j ∈ roots, j.val < i.val → BeforeHit entryName rest j

/-- One more root in front, with what the pass logs for it. -/
theorem Looked.cons {roots : List (Root cache first)} {log log' : List Event}
    {out : Option (Root cache first) × List Nat} {s : Session}
    (h : Looked entryName roots log' out s)
    {i : Root cache first} (hlog : log <:+ log') (hi : BeforeHit entryName log' i) :
    Looked entryName (i :: roots) log out s := by
  obtain ⟨hsuffix, hfailed, hhit⟩ := h
  refine ⟨hlog.trans hsuffix, hfailed, fun k hk => ?_⟩
  obtain ⟨rest, hrest, hbefore, hcovers⟩ := hhit k hk
  refine ⟨rest, hrest, hlog.trans hbefore, fun j hj hjk => ?_⟩
  rcases List.mem_cons.mp hj with rfl | hj
  · exact hi.mono hbefore
  · exact hcovers j hj hjk

theorem lookupPass_covers (entryName : Bytes) (lookup : Nat → IoTask Bool)
    (roots : List (Root cache first))
    (hsorted : roots.Pairwise fun i j => i.val < j.val) (failed : List Nat) (s : Session)
    (hfailed : ∀ j ∈ failed, FailedIn s.log j) :
    Post (Looked entryName roots s.log) (fun _ _ => False)
      (DiskCache.lookupPass false .runtime entryName lookup roots failed s) := by
  induction roots generalizing failed s with
  | nil => exact ⟨List.suffix_rfl, hfailed, fun i hi => by simp at hi⟩
  | cons i roots ih =>
      rw [List.pairwise_cons] at hsorted
      rw [DiskCache.lookupPass]
      have hchecked : s.log <:+ (s.checkTimeouts .runtime i).2.log := List.suffix_cons _ _
      have hfailed' : ∀ j ∈ failed, FailedIn (s.checkTimeouts .runtime i).2.log j := fun j hj =>
        (hfailed j hj).mono hchecked
      by_cases hskipped : 3 ≤ s.numTimeouts i.val
      · simp only [Session.checkTimeouts, hskipped, decide_true, if_true] at hchecked hfailed' ⊢
        exact (ih hsorted.2 failed _ hfailed').imp (fun out s' h => h.cons hchecked (.inl (by simp [SkippedIn])))
          fun _ _ => id
      · simp only [Session.checkTimeouts, hskipped, decide_false, Bool.false_eq_true,
          if_false] at hchecked hfailed' ⊢
        cases htask : runInIothread false (lookup i.val) with
        | ok hit =>
            cases hit with
            | true =>
                refine ⟨hchecked.trans (List.suffix_cons _ _),
                  fun j hj => (hfailed' j hj).mono (List.suffix_cons _ _), ?_⟩
                intro k hk
                obtain rfl : i = k := Option.some.inj hk
                refine ⟨_, rfl, hchecked, fun j hj hji => ?_⟩
                rcases List.mem_cons.mp hj with rfl | hj
                · omega
                · have hij := hsorted.1 j hj
                  omega
            | false =>
                have hmissed := List.suffix_cons (Event.operation .runtime .lookup (.cache i entryName) .absent)
                  (s.record (.check .runtime i false)).log
                exact (ih hsorted.2 failed _ fun j hj => (hfailed' j hj).mono hmissed).imp
                  (fun out s' h => h.cons (hchecked.trans hmissed) (.inr (.inr (by simp))))
                    fun _ _ => id
        | error error =>
            have hraised := raised_of_runInIothread .lookup rfl htask
            have hreported : s.log <:+ ((s.record (.check .runtime i false)).record
                (.operation .runtime .lookup (.cache i entryName)
                  (.of (.error error : Except Exn Unit)))).log := hchecked.trans (List.suffix_cons _ _)
            have hfailure : FailedIn (((s.record (.check .runtime i false)).record
                (.operation .runtime .lookup (.cache i entryName)
                  (.of (.error error : Except Exn Unit)))).reportError i error).log i :=
              failedIn_of_mem .lookup (.cache i entryName) (by decide) (isFailure_of_raised hraised) (by simp)
            refine (ih hsorted.2 (failed ++ [i.val]) _ fun j hj => ?_).imp
              (fun out s' h => h.cons (hreported.trans (List.suffix_cons _ _)) (.inr (.inl hfailure))) fun _ _ => id
            rcases List.mem_append.mp hj with hj | hj
            · exact (hfailed j hj).mono (hreported.trans (List.suffix_cons _ _))
            · rw [List.mem_singleton] at hj
              exact hj ▸ hfailure

theorem suffix_setUp (s : Session) (client : Client) (root : Nat) (creates : Bool)
    (status : Status) :
    s.log <:+ (s.setUp client root creates status).log := by
  cases creates with
  | true => exact (List.suffix_cons _ _).trans (List.suffix_cons _ _)
  | false => exact List.suffix_cons _ _

/-- The roots before a miss were skipped or failed, and all of them if there is none. -/
theorem setupPass_covers (o : EntryOutcomes) (failed : List Nat) (roots : List (Root cache first))
    (hsorted : roots.Pairwise fun i j => i.val < j.val) (s : Session)
    (hfailed : ∀ j ∈ failed, FailedIn s.log j) :
    Post (fun entry s' => (entry.hit = false ∧ entry.committed = false ∧
      entry.path.root = entry.root ∧
          entry.commitPath = some (.cache entry.root entryName)) ∧
        s.log <:+ s'.log ∧ ∀ j ∈ roots, j.val < entry.root.val →
        SkippedIn s'.log j ∨ FailedIn s'.log j)
      (fun _ s' => s.log <:+ s'.log ∧ ∀ j ∈ roots, SkippedIn s'.log j ∨ FailedIn s'.log j)
      (DiskCache.setupPass false .runtime entryName o failed roots s) := by
  induction roots generalizing s with
  | nil => exact ⟨List.suffix_rfl, fun j hj => by simp at hj⟩
  | cons i roots ih =>
      rw [List.pairwise_cons] at hsorted
      rw [DiskCache.setupPass]
      -- the pass over the rest, when the head is already accounted for
      have hrest : ∀ s₁ : Session, s.log <:+ s₁.log → (SkippedIn s₁.log i ∨ FailedIn s₁.log i) →
          Post (fun entry s' => (entry.hit = false ∧ entry.committed = false ∧
            entry.path.root = entry.root ∧
          entry.commitPath = some (.cache entry.root entryName)) ∧
              s.log <:+ s'.log ∧ ∀ j ∈ i :: roots, j.val < entry.root.val →
                SkippedIn s'.log j ∨ FailedIn s'.log j)
            (fun _ s' => s.log <:+ s'.log ∧ ∀ j ∈ i :: roots, SkippedIn s'.log j ∨
              FailedIn s'.log j)
            (DiskCache.setupPass false .runtime entryName o failed roots s₁) := by
        intro s₁ hs₁ hi
        have hhead : ∀ s' : Session, s₁.log <:+ s'.log → SkippedIn s'.log i ∨ FailedIn s'.log i :=
          fun s' hs' => hi.imp (fun h => hs'.subset h) fun h => h.mono hs'
        refine (ih hsorted.2 s₁ fun j hj => (hfailed j hj).mono hs₁).imp ?_ ?_
        · rintro entry s' ⟨hentry, hs', hcovers⟩
          refine ⟨hentry, hs₁.trans hs', fun j hj hlt => ?_⟩
          rcases List.mem_cons.mp hj with rfl | hj
          · exact hhead s' hs'
          · exact hcovers j hj hlt
        · rintro error s' ⟨hs', hcovers⟩
          refine ⟨hs₁.trans hs', fun j hj => ?_⟩
          rcases List.mem_cons.mp hj with rfl | hj
          · exact hhead s' hs'
          · exact hcovers j hj
      by_cases hskipped : 3 ≤ s.numTimeouts i.val
      · simp only [Session.checkTimeouts, hskipped, decide_true, Bool.true_or, if_true]
        exact hrest _ (List.suffix_cons _ _) (.inl (by simp [SkippedIn]))
      · have hchecked : s.log <:+ (s.record (.check .runtime i false)).log := List.suffix_cons _ _
        simp only [Session.checkTimeouts, hskipped, decide_false, Bool.false_or]
        by_cases hcontains : failed.contains i.val = true
        · rw [if_pos hcontains]
          have hi := hfailed i.val (List.contains_iff_mem.mp hcontains)
          exact hrest _ hchecked (.inr (hi.mono hchecked))
        · rw [if_neg hcontains]
          cases htask : runInIothread false (o.setup i.val).task with
          | ok shared =>
              refine ⟨⟨rfl, rfl, rfl, rfl⟩, hchecked.trans (suffix_setUp _ _ _ _ _),
                fun j hj hlt => ?_⟩
              rcases List.mem_cons.mp hj with rfl | hj
              · exact absurd hlt (Nat.lt_irrefl _)
              · have hij := hsorted.1 j hj
                dsimp only at hlt
                omega
          | error error =>
              have hraised := raised_of_runInIothread .setup rfl htask
              refine hrest _ ((hchecked.trans (suffix_setUp _ _ _ _ _)).trans (List.suffix_cons _ _))
                (.inr (failedIn_of_mem .setup (.temporary i s.uuids) (by decide)
                  (isFailure_of_raised hraised) ?_))
              simp [Session.setUp]

/-! ### The loop -/

/-- The roots before `first` are accounted for. -/
def CoveredTo (entryName : Bytes) (first : Nat) (s : Session) : Prop :=
  ∀ root < first, Accounted entryName s.log root

/-- What an entry is obtained with: before a hit there may be misses as well. -/
def ObtainedCovered (entryName : Bytes) (first : Nat) (entry : DiskCacheEntry cache first)
    (s : Session) : Prop :=
  entry.path.root = entry.root ∧
    ((entry.hit = false ∧ (entry.committed = false ∧
      entry.commitPath = some (.cache entry.root entryName)) ∧
        CoveredTo entryName entry.root s) ∨
      (entry.hit = true ∧ entry.path = .cache entry.root entryName ∧ ∃ rest,
        s.log = .operation .runtime .lookup (.cache entry.root entryName) .done :: rest ∧
          ∀ root < entry.root.val, Accounted entryName rest root ∨
            .operation .runtime .lookup (.cache root entryName) .absent ∈ rest))

end

theorem covered_entry {cache : DiskCache} {tag digest : Bytes} (hvalid : isValidTag tag = true)
    (o : EntryOutcomes)
    (first : Nat) {s : Session} (hs : CoveredTo (tag ++ bytes "." ++ digest) first s) :
    Post (ObtainedCovered (tag ++ bytes "." ++ digest) first)
      (fun _ s => CoveredTo (tag ++ bytes "." ++ digest) cache.paths.length s)
      (cache.entry false .runtime tag digest o first s) := by
  have hlooked := lookupPass_covers (tag ++ bytes "." ++ digest) o.lookup (cache.roots first)
    (cache.roots_sorted first) [] s fun j hj => by simp at hj
  unfold DiskCache.entry
  simp only [hvalid, Bool.not_true, Bool.false_eq_true, if_false]
  rcases hpass : DiskCache.lookupPass false .runtime (tag ++ bytes "." ++ digest) o.lookup (cache.roots first) [] s
    with ⟨result, s₁⟩
  rw [hpass] at hlooked
  match result with
  | .error error => exact hlooked.elim
  | .ok (some i, _) =>
      obtain ⟨-, -, hhit⟩ := hlooked
      obtain ⟨rest, hrest, hbefore, hcovers⟩ := hhit i rfl
      refine ⟨rfl, .inr ⟨rfl, rfl, rest, hrest, fun root hroot => ?_⟩⟩
      by_cases hfirst : root < first
      · exact .inl ((hs root hfirst).mono hbefore)
      · have hi := i.2
        have hlt : root < i.val := hroot
        rcases hcovers ⟨root, by omega⟩ (DiskCache.mem_roots _) hlt with h | h | h
        · exact .inl (.inl h)
        · exact .inl (.inr (.inl h))
        · exact .inr h
  | .ok (none, failed) =>
      obtain ⟨hsuffix, hfailed, -⟩ := hlooked
      refine (setupPass_covers o failed (cache.roots first) (cache.roots_sorted first) s₁ hfailed).imp ?_ ?_
      · rintro entry s' ⟨⟨hhit, hcommitted, hpath, hcommit⟩, hs', hcovers⟩
        refine ⟨hpath, .inl ⟨hhit, ⟨hcommitted, hcommit⟩, fun root hroot => ?_⟩⟩
        by_cases hfirst : root < first
        · exact (hs root hfirst).mono (hsuffix.trans hs')
        · have hentry := entry.root.2
          rcases hcovers ⟨root, by omega⟩ (DiskCache.mem_roots _) hroot with h | h
          · exact .inl h
          · exact .inr (.inl h)
      · rintro error s' ⟨hs', hcovers⟩ root hroot
        by_cases hfirst : root < first
        · exact (hs root hfirst).mono (hsuffix.trans hs')
        · rcases hcovers ⟨root, by omega⟩ (DiskCache.mem_roots _) with h | h
          · exact .inl h
          · exact .inr (.inl h)

/-- An operation of the work at a place fails, some time after a log. -/
def FailsAfter (place : Place) (log : List Event) (s : Session) : Prop :=
  ∃ kind status rest, kind.isWork = true ∧ status.isFailure = true ∧
    .operation .runtime kind place status :: rest <:+ s.log ∧ log <:+ rest

theorem failsAfter_of_failed {place : Place} {log : List Event} {s s' : Session} {error : Exn}
    (hlog : log <:+ s.log)
    (h : Failed false .runtime place s error s') : FailsAfter place log s' := by
  obtain ⟨events, kind, status, -, hraised, hwork, rfl⟩ := h
  exact ⟨kind, status, _, hwork, isFailure_of_raised hraised, List.suffix_rfl,
    hlog.trans (List.suffix_append _ _)⟩

theorem FailsAfter.failedIn {place : Place} {log : List Event} {s : Session}
    (h : FailsAfter place log s) :
    FailedIn s.log place.root := by
  obtain ⟨kind, status, rest, hwork, hstatus, hsuffix, -⟩ := h
  refine failedIn_of_mem kind place ?_ hstatus (hsuffix.subset (by simp))
  rintro rfl
  simp [Operation.isWork] at hwork

theorem load_failsAfter {ρ : Type} (cache : DiskCache) (loader : Loader) (backend : Backend ρ)
    (place : Place) (o : AttemptOutcomes) (s : Session) :
    Post (fun _ s' => s.log <:+ s'.log) (fun _ s' => FailsAfter place s.log s')
      (load cache false loader backend place o s) := by
  refine load_rule (I := fun s' => s.log <:+ s'.log) (fun s₁ events hs₁ hevents =>
    hs₁.trans (List.suffix_append _ _)) (fun s₁ error s' hs₁ hfailed => failsAfter_of_failed hs₁ hfailed) o
    (fun s₁ hs₁ => ?_) List.suffix_rfl
  have hJ := suffix_requestInvariant s.log
  refine (makeBootstrap_rule (E := fun _ s' => s.log <:+ s'.log) (fun _ _ => id) (fun _ => hJ.bootstrap) o.bootstrap
    (fun s hs => hJ.buildLoader loader _ hs) hs₁).imp (fun _ _ => id) fun error s' hs' => ?_
  refine ⟨.bootstrap, _, s'.log, rfl, ?_, List.suffix_rfl, hs'⟩
  cases error <;> rfl

/-- A failure in the obtained entry accounts for its root, and for the roots before it. -/
theorem ObtainedCovered.accounted {cache : DiskCache} {entryName : Bytes} {first : Nat}
    {entry : DiskCacheEntry cache first} {s s' : Session} {place : Place}
    (h : ObtainedCovered entryName first entry s)
    (hplace : place.root = entry.root) (hhit : entry.hit = true → place = entry.path)
    (hfails : FailsAfter place s.log s') : CoveredTo entryName (entry.root + 1) s' := by
  intro root hroot
  rcases Nat.lt_succ_iff_lt_or_eq.mp hroot with hlt | rfl
  · obtain ⟨kind, status, rest, hwork, hstatus, hsuffix, hlog⟩ := hfails
    have hs' : s.log <:+ s'.log := hlog.trans ((List.suffix_cons _ _).trans hsuffix)
    rcases h.2 with ⟨-, -, hcovered⟩ | ⟨hentry, hpath, earlier, hearlier, hcovered⟩
    · exact (hcovered root hlt).mono hs'
    · rcases hcovered root hlt with haccounted | habsent
      · have hearlier' : earlier <:+ s.log := hearlier ▸ List.suffix_cons _ _
        exact haccounted.mono (hearlier'.trans hs')
      · refine .inr (.inr ⟨entry.root, kind, status, hlt, hwork, hstatus, ?_⟩)
        rw [hhit hentry, hpath] at hsuffix
        refine List.Sublist.trans ?_ hsuffix.sublist
        refine List.Sublist.cons_cons _ (List.Sublist.trans ?_ hlog.sublist)
        rw [hearlier]
        exact List.Sublist.cons_cons _ (List.singleton_sublist.mpr habsent)
  · exact .inr (.inl (hplace ▸ hfails.failedIn))

theorem FailsAfter.mono {place : Place} {log log' : List Event} {s s' : Session}
    (h : FailsAfter place log s)
    (hlog : log' <:+ log) (hs : s.log <:+ s'.log) : FailsAfter place log' s' := by
  obtain ⟨kind, status, rest, hwork, hstatus, hsuffix, hrest⟩ := h
  exact ⟨kind, status, rest, hwork, hstatus, hsuffix.trans hs, hlog.trans hrest⟩

section

variable {ρ : Type} {cache : DiskCache}

/-- The entry that the work of a request leaves, and where an error comes from. -/
theorem requestWork_failsAfter (loader : Loader) (backend : Backend ρ) (loads : Bool) (input : ρ)
    (o : RequestOutcomes) {first : Nat} (entry : DiskCacheEntry cache first) (s : Session)
    (hpath : entry.path.root = entry.root.val)
    (hcommitted : entry.hit = false → entry.committed = false)
    (hcommit : entry.hit = false → (entry.commitPath.getD entry.path).root = entry.root.val) :
    Post (fun _ _ => True)
      (fun _ out => out.1.root = entry.root ∧ ∃ place, place.root = entry.root.val ∧
        (entry.hit = true → place = entry.path) ∧ FailsAfter place s.log out.2)
      (requestWork cache false loader backend loads input o first entry s) := by
  have hbuilt : Post
      (fun _ out => out.1.root = entry.root ∧ out.1.path.root = entry.root.val ∧
        (entry.hit = true → out.1.path = entry.path) ∧ s.log <:+ out.2.log)
      (fun _ out => out.1.root = entry.root ∧ entry.hit = false ∧ FailsAfter entry.path s.log out.2)
      (buildEntry false backend input o entry s) := by
    rw [buildEntry]
    by_cases hhit : entry.hit = true
    · rw [if_pos hhit]
      exact ⟨rfl, hpath, fun _ => rfl, List.suffix_rfl⟩
    · rw [if_neg hhit]
      rw [Bool.not_eq_true] at hhit
      refine (build_spec false .runtime (o.attempt entry.root).toWorkOutcomes _ hhit (hcommitted hhit) s).imp ?_ ?_
      · rintro _ ⟨entry', s'⟩ ⟨rfl, events, publication, -, rfl⟩
        refine ⟨rfl, hcommit hhit, fun h => by simp [hhit] at h, ?_⟩
        exact (List.suffix_append events s.log).trans (List.suffix_cons _ _)
      · rintro error ⟨entry', s'⟩ ⟨hfailed, abandoned, rfl, -⟩
        exact ⟨rfl, hhit, failsAfter_of_failed List.suffix_rfl hfailed⟩
  rw [requestWork]
  rcases hrun : buildEntry false backend input o entry s with ⟨result, entry', s₁⟩
  rw [hrun] at hbuilt
  cases result with
  | error error =>
      obtain ⟨hroot, hhit, hfails⟩ := hbuilt
      exact ⟨hroot, entry.path, hpath, fun h => by simp [hhit] at h, hfails⟩
  | ok _ =>
      obtain ⟨hroot, hpath', hhit, hlog⟩ := hbuilt
      dsimp only at hroot hpath' hhit hlog ⊢
      split
      · have hloaded := load_failsAfter cache loader backend entry'.path (o.attempt entry'.root) s₁
        rcases hload : load cache false loader backend entry'.path (o.attempt entry'.root) s₁ with ⟨result, s₂⟩
        rw [hload] at hloaded
        cases result with
        | error error => exact ⟨hroot, entry'.path, hpath', hhit, hloaded.mono hlog List.suffix_rfl⟩
        | ok _ => trivial
      · trivial

/-- A request that fails, with fallback, leaves no root unaccounted for: the root was disabled, or
an operation of the request failed on it, or it missed in front of a later root whose hit then
failed. -/
theorem compileImpl_error_accounted (cache : DiskCache) (loader : Loader) (backend : Backend ρ)
    (loads : Bool) (name key : Bytes)
    (hvalid : isValidTag name = true) (input : ρ) (o : RequestOutcomes) (s s' : Session)
    (error : Exn)
    (h : compileImpl cache false loader backend loads name key input o { s with log := [] } = (.error error, s')) :
    ∀ root < cache.paths.length, Accounted (name ++ bytes "." ++ key) s'.log root := by
  have hnew : CoveredTo (name ++ bytes "." ++ key) 0 { s with log := [] } := fun root hroot => by omega
  refine (run_rule (Q := fun _ _ => True) (E := fun _ s => CoveredTo (name ++ bytes "." ++ key) cache.paths.length s)
    (CoveredTo (name ++ bytes "." ++ key)) (ObtainedCovered (name ++ bytes "." ++ key))
    (fun first s hs => covered_entry hvalid (o.entry first) first hs) (fun first entry s hs => ?_) hnew).error_of h
  refine (requestWork_failsAfter loader backend loads input o entry s hs.1 (fun hhit => ?_) fun hhit => ?_).imp
    (fun _ _ => id) ?_
  · rcases hs.2 with ⟨-, ⟨hcommitted, -⟩, -⟩ | ⟨hentry, -⟩
    · exact hcommitted
    · simp [hhit] at hentry
  · rcases hs.2 with ⟨-, ⟨-, hcommit⟩, -⟩ | ⟨hentry, -⟩
    · rw [hcommit]
      rfl
    · simp [hhit] at hentry
  · rintro error out ⟨hroot, place, hplace, hhit, hfails⟩
    have hlog : out.2.log <:+ ((out.1.abandon (leavesWork error)).destroy false .runtime
        (o.attempt out.1.root).cleanup (out.2.reportError out.1.root error)).log :=
      (suffix_requestInvariant out.2.log).destroy _ _ (List.suffix_cons _ _)
    have hcovered := hs.accounted hplace hhit (hfails.mono List.suffix_rfl hlog)
    rw [← hroot] at hcovered
    rw [Handled, if_neg (by decide)]
    dsimp only
    split
    · next hlast =>
        rw [hlast] at hcovered
        exact hcovered
    · exact hcovered

/-- A hit on the second root whose load fails, after the first root missed. -/
def corruptSecond : RequestOutcomes :=
  { RequestOutcomes.calm false with
    entry := fun _ => { EntryOutcomes.calm false with lookup := fun root => .calm (root == 1) }
    attempt := fun _ => { AttemptOutcomes.calm with
      load := fun _ => { StepOutcome.calm with io := { result := .error (bytes "file changed during read") } } } }

theorem compileImpl_error_accounted_corruptSecond :
    Accounted (bytes "kernel" ++ bytes "." ++ bytes "0")
        (compileImpl ⟨[bytes "/a", bytes "/b"], by decide⟩ false .sample .sample true (bytes "kernel") (bytes "0") ()
          corruptSecond {}).2.log 0 ∧
      Accounted (bytes "kernel" ++ bytes "." ++ bytes "0")
        (compileImpl ⟨[bytes "/a", bytes "/b"], by decide⟩ false .sample .sample true (bytes "kernel") (bytes "0") ()
          corruptSecond {}).2.log 1 := by
  have haccounted := compileImpl_error_accounted ⟨[bytes "/a", bytes "/b"], by decide⟩ .sample .sample true
    (bytes "kernel") (bytes "0") (by decide) () corruptSecond {} _ (.other (bytes "file changed during read")) rfl
  exact ⟨haccounted 0 (by decide), haccounted 1 (by decide)⟩

/-- The first root is healthy and enabled, and is left untried. -/
theorem corruptSecond_leaves_first :
    (compileImpl ⟨[bytes "/a", bytes "/b"], by decide⟩ false .sample .sample true (bytes "kernel") (bytes "0") ()
        corruptSecond {}).1 = .error (.other (bytes "file changed during read")) ∧
      ¬ SkippedIn (compileImpl ⟨[bytes "/a", bytes "/b"], by decide⟩ false .sample .sample true (bytes "kernel")
        (bytes "0") () corruptSecond {}).2.log 0 ∧
      ¬ FailedIn (compileImpl ⟨[bytes "/a", bytes "/b"], by decide⟩ false .sample .sample true (bytes "kernel")
        (bytes "0") () corruptSecond {}).2.log 0 := by
  refine ⟨rfl, ?_, ?_⟩
  · unfold SkippedIn
    decide +kernel
  · unfold FailedIn
    decide +kernel

end

end DeepJit
