import DeepJit.Cache.Temporary

/-!
# Private temporary directories

In a careful run the directory of a writer stands at its path for as long as anything of that writer
may use it, so that no other writer can be given it. Without care two writers share a directory.
-/

namespace DeepJit.Temporary

/-- The writer has an entry that it has not settled, or something of it still runs. -/
def Writer.Using (x : Writer) : Prop :=
  x.caller = .holding ∨ (∃ task, x.caller = .waiting task) ∨ x.caller = .failed ∨ x.late ≠ []

/-- At most one task or command of a writer runs. One that may move or remove the directory has no
caller left that uses it. -/
def Writer.Single (x : Writer) : Prop :=
  match x.caller with
  | .idle | .setting | .holding | .waiting _ => x.late = []
  | .failed => x.late = [] ∨ x.late = [.build]
  | .ended => x.late = [] ∨ ∃ task, x.late = [task]

structure Inv (s : State) : Prop where
  tmp_lt : ∀ path d, s.tmp path = some d → d < s.next
  creator_lt : ∀ d w, s.creator d = some w → d < s.next
  single : ∀ w, (s.writers w).Single
  stands : ∀ w, (s.writers w).Using → ∃ d, s.tmp (s.name w) = some d ∧ s.creator d = some w
  own : ∀ event ∈ s.log, s.creator event.directory = some event.writer

section

variable {s t : State} {w v d : Nat} {x : Writer}

@[simp] theorem writers_set (s : State) (w : Nat) (x : Writer) (v : Nat) :
    (s.set w x).writers v = if v = w then x else s.writers v := Function.update_apply ..

theorem tmp_create (s : State) (w : Nat) (path : Bytes) :
    (s.create w).tmp path = if path = s.name w then some s.next else s.tmp path := Function.update_apply ..

theorem creator_create (s : State) (w d : Nat) :
    (s.create w).creator d = if d = s.next then some w else s.creator d := Function.update_apply ..

theorem tmp_vacate (s : State) (w : Nat) (path : Bytes) :
    (s.vacate w).tmp path = if path = s.name w then none else s.tmp path := Function.update_apply ..

theorem Inv.initial (h : Initial s) : Inv s where
  tmp_lt := h.tmp
  creator_lt := by simp [h.creator]
  single := by simp [h.writers, Writer.Single]
  stands := by simp [h.writers, Writer.Using]
  own := by simp [h.log]

/-- Two writers that use the same path are one. -/
theorem Inv.eq_of_name (h : Inv s) (hw : (s.writers w).Using) (hv : (s.writers v).Using)
    (hname : s.name v = s.name w) : v = w := by
  obtain ⟨d, hd, hcreator⟩ := h.stands w hw
  obtain ⟨d', hd', hcreator'⟩ := h.stands v hv
  rw [hname, hd] at hd'
  obtain rfl := Option.some.inj hd'
  exact Option.some.inj (hcreator'.symm.trans hcreator)

/-- Only the writer itself changes. -/
theorem Inv.set (h : Inv s) (hsingle : x.Single)
    (hstands : x.Using → ∃ d, s.tmp x.name = some d ∧ s.creator d = some w) : Inv (s.set w x) where
  tmp_lt := h.tmp_lt
  creator_lt := h.creator_lt
  single := by
    intro v
    rw [writers_set]
    split
    · exact hsingle
    · exact h.single v
  stands := by
    intro v hv
    show ∃ d, s.tmp ((s.set w x).writers v).name = some d ∧ s.creator d = some v
    rw [writers_set] at hv ⊢
    split at hv
    · rename_i heq
      subst heq
      rw [if_pos rfl]
      exact hstands hv
    · rename_i hne
      rw [if_neg hne]
      exact h.stands v hv
  own := h.own

/-- A writer that keeps its name and does not start to use a directory. -/
theorem Inv.move (h : Inv s) (hname : x.name = s.name w) (hsingle : x.Single)
    (husing : x.Using → (s.writers w).Using) : Inv (s.set w x) := by
  apply h.set hsingle
  intro hx
  rw [hname]
  exact h.stands w (husing hx)

theorem not_using (hlate : x.late = []) (hcaller : x.caller = .idle ∨ x.caller = .setting ∨ x.caller = .ended) :
    ¬x.Using := by
  rcases hcaller with hcaller | hcaller | hcaller <;> simp [Writer.Using, hlate, hcaller]

theorem single_of_late (hlate : x.late = []) : x.Single := by
  rw [Writer.Single]
  split <;> simp [hlate]

/-- A writer without a directory. -/
theorem Inv.withdraw (h : Inv s) (hlate : x.late = [])
    (hcaller : x.caller = .idle ∨ x.caller = .setting ∨ x.caller = .ended) : Inv (s.set w x) :=
  h.set (single_of_late hlate) fun husing => absurd husing (not_using hlate hcaller)

/-- Nothing is late before the entry is settled. -/
theorem Writer.Single.late_eq_nil (h : x.Single) (hfailed : x.caller ≠ .failed) (hended : x.caller ≠ .ended) :
    x.late = [] := by
  rw [Writer.Single] at h
  split at h
  · exact h
  · exact h
  · exact h
  · exact h
  · exact absurd ‹_› hfailed
  · exact absurd ‹_› hended

/-- What a writer may leave behind at its end. -/
theorem Writer.Single.late_short (h : x.Single) : x.late = [] ∨ ∃ task, x.late = [task] := by
  rw [Writer.Single] at h
  split at h
  · exact .inl h
  · exact .inl h
  · exact .inl h
  · exact .inl h
  · exact h.imp id fun hlate => ⟨_, hlate⟩
  · exact h

theorem Inv.late_eq_nil (h : Inv s) {caller : Caller} (hcaller : (s.writers w).caller = caller)
    (hearly : caller ≠ .failed ∧ caller ≠ .ended) : (s.writers w).late = [] := by
  subst hcaller
  exact (h.single w).late_eq_nil hearly.1 hearly.2

/-- A late task is the only one. -/
theorem Writer.Single.late_eq (h : x.Single) {before later : List Task} {task : Task}
    (hlate : x.late = before ++ task :: later) :
    before = [] ∧ later = [] ∧ (x.caller = .ended ∨ x.caller = .failed ∧ task = .build) := by
  by_cases hended : x.caller = .ended
  · rw [Writer.Single, hended] at h
    rcases h with h | ⟨other, h⟩
    · simp [hlate] at h
    · rw [hlate, List.append_eq_singleton_iff] at h
      simp_all
  · by_cases hfailed : x.caller = .failed
    · rw [Writer.Single, hfailed] at h
      rcases h with h | h
      · simp [hlate] at h
      · rw [hlate, List.append_eq_singleton_iff] at h
        simp_all
    · have hnil := h.late_eq_nil hfailed hended
      simp [hlate] at hnil

/-- A writer uses a directory of its own. -/
theorem Inv.record (h : Inv s) (use : Use) (hcreator : s.creator d = some w) : Inv (s.record w use d) where
  tmp_lt := h.tmp_lt
  creator_lt := h.creator_lt
  single := h.single
  stands := h.stands
  own := by
    intro event hevent
    rcases List.mem_cons.mp hevent with rfl | hevent
    · exact hcreator
    · exact h.own event hevent

/-- A new directory at a path where nothing stood. -/
theorem Inv.create (h : Inv s) (hnew : s.tmp (s.name w) = none) : Inv (s.create w) where
  tmp_lt := by
    intro path d hd
    show d < s.next + 1
    rw [tmp_create] at hd
    split at hd
    · obtain rfl := Option.some.inj hd
      omega
    · have hlt := h.tmp_lt path d hd
      omega
  creator_lt := by
    intro d v hd
    show d < s.next + 1
    rw [creator_create] at hd
    split at hd
    · omega
    · have hlt := h.creator_lt d v hd
      omega
  single := h.single
  stands := by
    intro v hv
    obtain ⟨d, hd, hcreator⟩ := h.stands v hv
    have hname : s.name v ≠ s.name w := fun heq => by
      rw [heq, hnew] at hd
      simp at hd
    have hlt := h.creator_lt d v hcreator
    refine ⟨d, ?_, ?_⟩
    · rw [tmp_create]
      exact (if_neg hname).trans hd
    · rw [creator_create, if_neg (by omega)]
      exact hcreator
  own := by
    intro event hevent
    have hcreator := h.own event hevent
    have hlt := h.creator_lt _ _ hcreator
    rw [creator_create, if_neg (by omega)]
    exact hcreator

/-- The directory of a writer goes with its last use. -/
theorem Inv.vacate (h : Inv s) (hw : (s.writers w).Using) (hsingle : x.Single) (hdone : ¬x.Using) :
    Inv ((s.vacate w).set w x) where
  tmp_lt := by
    intro path d hd
    have hd' : (s.vacate w).tmp path = some d := hd
    rw [tmp_vacate] at hd'
    split at hd'
    · simp at hd'
    · exact h.tmp_lt path d hd'
  creator_lt := h.creator_lt
  single := by
    intro v
    rw [writers_set]
    split
    · exact hsingle
    · exact h.single v
  stands := by
    intro v hv
    show ∃ d, (s.vacate w).tmp (((s.vacate w).set w x).writers v).name = some d ∧ s.creator d = some v
    rw [writers_set] at hv ⊢
    split at hv
    · exact absurd hv hdone
    · rename_i hne
      have hother : s.name v ≠ s.name w := fun heq => hne (h.eq_of_name hw hv heq)
      obtain ⟨d, hd, hcreator⟩ := h.stands v hv
      rw [if_neg hne]
      refine ⟨d, ?_, hcreator⟩
      rw [tmp_vacate]
      exact (if_neg hother).trans hd
  own := h.own

/-- What an act of a task does to the state: nothing, a use of the directory that stands at the
path, or a last use by which it goes. -/
theorem Act.cases {task : Task} {outcome : Outcome} (h : Act s w task t outcome) :
    t = s ∨ (∃ d use, s.tmp (s.name w) = some d ∧ t = s.record w use d) ∨
      ∃ d use, s.tmp (s.name w) = some d ∧ t = (s.record w use d).vacate w ∧ task ≠ .build ∧ outcome = .returned := by
  cases h with
  | build hd | mark hd | clean hd => exact .inr (.inl ⟨_, _, hd, rfl⟩)
  | rename hd | remove hd => exact .inr (.inr ⟨_, _, hd, rfl, by simp, rfl⟩)
  | built | buildThrows | lose | commitThrows | leave => exact .inl rfl

/-- An act of a task of a writer that uses its directory. -/
theorem Inv.act (h : Inv s) {task : Task} {outcome : Outcome} (hact : Act s w task t outcome)
    (hw : (s.writers w).Using) (hname : x.name = s.name w) (hsingle : x.Single)
    (hdone : task ≠ .build → outcome = .returned → ¬x.Using) : Inv (t.set w x) := by
  obtain ⟨d, hd, hcreator⟩ := h.stands w hw
  have hstands : x.Using → ∃ d, s.tmp x.name = some d ∧ s.creator d = some w := fun _ =>
    ⟨d, hname ▸ hd, hcreator⟩
  rcases hact.cases with rfl | ⟨d', use, hd', rfl⟩ | ⟨d', use, hd', rfl, htask, houtcome⟩
  · exact h.set hsingle hstands
  · obtain rfl := Option.some.inj (hd.symm.trans hd')
    exact (h.record use hcreator).set hsingle hstands
  · obtain rfl := Option.some.inj (hd.symm.trans hd')
    exact (h.record use hcreator).vacate hw hsingle (hdone htask houtcome)

theorem Inv.expire (h : Inv s) (fallbackDisabled : Bool) {task : Task}
    (hcaller : (s.writers w).caller = .waiting task) :
    Inv (s.set w { s.writers w with
      caller := .afterTimeout fallbackDisabled task, late := (s.writers w).late ++ [task] }) := by
  have hlate := h.late_eq_nil hcaller (by simp)
  refine h.move rfl ?_ fun _ => .inr (.inl ⟨task, hcaller⟩)
  rw [hlate, List.nil_append]
  cases task with
  | build =>
      show Writer.Single _
      unfold Writer.Single Caller.afterTimeout
      cases fallbackDisabled with
      | true => exact .inr rfl
      | false => exact .inr ⟨_, rfl⟩
  | commit | remove => exact .inr ⟨_, rfl⟩

theorem Inv.lateAct (h : Inv s) {before later : List Task} {task : Task} {outcome : Outcome}
    (hlate : (s.writers w).late = before ++ task :: later) (hact : Act s w task t outcome) :
    Inv (t.set w { s.writers w with late := before ++ outcome.late ++ later }) := by
  obtain ⟨rfl, rfl, hcaller⟩ := (h.single w).late_eq hlate
  have husing : (s.writers w).Using := .inr (.inr (.inr (by simp [hlate])))
  rcases hcaller with hcaller | ⟨hcaller, rfl⟩
  · refine h.act hact husing rfl ?_ fun _ houtcome => not_using ?_ (.inr (.inr hcaller))
    · rw [Writer.Single, hcaller]
      cases outcome with
      | more task => exact .inr ⟨task, rfl⟩
      | returned | threw => exact .inl rfl
    · rw [houtcome]
      rfl
  · refine h.act hact husing rfl ?_ fun hbuild _ => absurd rfl hbuild
    rw [Writer.Single, hcaller]
    cases hact with
    | build hd => exact .inr rfl
    | built | buildThrows => exact .inl rfl

theorem Inv.kill (h : Inv s) :
    Inv (s.set w { s.writers w with
      caller := .ended, late := (s.writers w).late ++ (s.writers w).caller.tasks }) := by
  cases hcaller : (s.writers w).caller with
  | waiting task =>
      have hlate := h.late_eq_nil hcaller (by simp)
      refine h.move rfl (.inr ⟨task, ?_⟩) fun _ => .inr (.inl ⟨task, hcaller⟩)
      show (s.writers w).late ++ [task] = [task]
      rw [hlate, List.nil_append]
  | idle | setting | holding =>
      have hlate := h.late_eq_nil hcaller (by simp)
      have hnil : (s.writers w).late ++ [] = [] := by rw [hlate, List.nil_append]
      exact h.withdraw hnil (by simp)
  | failed =>
      refine h.move rfl ?_ fun _ => .inr (.inr (.inl hcaller))
      show (s.writers w).late ++ [] = [] ∨ ∃ task, (s.writers w).late ++ [] = [task]
      rw [List.append_nil]
      exact (h.single w).late_short
  | ended =>
      refine h.move rfl ?_ fun husing => ?_
      · show (s.writers w).late ++ [] = [] ∨ ∃ task, (s.writers w).late ++ [] = [task]
        rw [List.append_nil]
        exact (h.single w).late_short
      · refine .inr (.inr (.inr fun hnil => not_using ?_ (by simp) husing))
        show (s.writers w).late ++ [] = []
        rw [List.append_nil]
        exact hnil

variable {fallbackDisabled : Nat → Bool} {a : Action}

/-- One careful step. -/
theorem Inv.step (h : Inv s) (hcareful : Careful s a) (hstep : Step fallbackDisabled s a t) : Inv t := by
  cases hstep with
  | @call w name hcaller =>
      have hlate := h.late_eq_nil hcaller (by simp)
      exact h.withdraw hlate (by simp)
  | @setUp w hcaller hnew =>
      have hlate := h.late_eq_nil hcaller (by simp)
      have hcreator : (s.create w).creator s.next = some w := by rw [creator_create, if_pos rfl]
      refine ((h.create hnew).record .returned hcreator).set (single_of_late hlate) fun _ => ⟨s.next, ?_, hcreator⟩
      show (s.create w).tmp (s.name w) = some s.next
      rw [tmp_create, if_pos rfl]
  | @setUpFound w d hcaller hfound =>
      have hnone : s.tmp (s.name w) = none := hcareful
      rw [hfound] at hnone
      simp at hnone
  | @setUpThrows w hcaller =>
      have hlate := h.late_eq_nil hcaller (by simp)
      exact h.withdraw hlate (by simp)
  | @setUpHalf w hcaller hnew =>
      have hlate := h.late_eq_nil hcaller (by simp)
      exact (h.create hnew).withdraw hlate (by simp)
  | @setUpExpires w hcaller =>
      have hlate := h.late_eq_nil hcaller (by simp)
      exact h.withdraw hlate (by simp)
  | @lateSetUp w hlate hnew => exact (h.create hnew).move rfl (h.single w) fun husing => husing
  | @start w task hcaller htask =>
      have hlate := h.late_eq_nil hcaller (by simp)
      exact h.move rfl (single_of_late hlate) fun _ => .inl hcaller
  | @fail w hcaller =>
      have hlate := h.late_eq_nil hcaller (by simp)
      exact h.move rfl (single_of_late hlate) fun _ => .inl hcaller
  | @abandon w hcaller hfallback =>
      exact h.move rfl (h.single w).late_short fun _ => .inr (.inr (.inl hcaller))
  | @clean w hcaller => exact h.move rfl hcareful fun _ => .inr (.inr (.inl hcaller))
  | @act _ w task outcome hcaller hact =>
      have hlate := h.late_eq_nil hcaller (by simp)
      refine h.act hact (.inr (.inl ⟨task, hcaller⟩)) rfl (single_of_late hlate) fun htask houtcome => not_using hlate ?_
      subst houtcome
      cases task with
      | build => exact absurd rfl htask
      | commit | remove => exact .inr (.inr rfl)
  | @expire w task hcaller => exact h.expire (fallbackDisabled w) hcaller
  | lateAct hlate hact => exact h.lateAct hlate hact
  | @lateEnds w before later task hlate =>
      obtain ⟨rfl, rfl, -⟩ := (h.single w).late_eq hlate
      exact h.move rfl (single_of_late rfl) fun _ => .inr (.inr (.inr (by simp [hlate])))
  | kill => exact h.kill

end

/-- Nothing is there yet. -/
def start : State := { tmp := fun _ => none, next := 0 }

theorem start_initial : Initial start := ⟨fun _ => rfl, by simp [start], fun _ => rfl, rfl⟩

def uuid : Bytes := bytes "7-00000001-00000002-00000003"

/-- After the set-up of the first writer. -/
def firstHolds : State :=
  let called := start.set 0 { start.writers 0 with name := uuid, caller := .setting }
  ((called.create 0).record 0 .returned called.next).set 0 { called.writers 0 with caller := .holding }

end DeepJit.Temporary
