import DeepJit.Library.MemoEval

/-!
# Termination of memoised depth-first evaluation

`memoRun` is `memoEval` with the frames counted: its fuel is the number of bodies that may be open
at a time. Over a finite set of names that is closed under references it returns, whatever the table
and the stack are, because every open body has a name of its own on the stack. Whatever it returns,
the stack is as it was, and the names that it added to the table have a closure that was expanded,
down to names that the table had before.
-/

namespace MemoEval

variable {ν κ δ ε : Type*} [DecidableEq ν] (S : System ν κ δ ε)

/-- A visit of one name, given the evaluation of its body. -/
def memoVisit (run : κ × List (Except ε ν) → Memo ν δ → Option (Except ε δ × Memo ν δ)) (n : ν)
    (memo : Memo ν δ) : Option (Except ε δ × Memo ν δ) :=
  match memo.find n with
  | some d => some (.ok d, memo)
  | none =>
      if n ∈ memo.visiting then some (.error (S.cyclic n), memo)
      else
        match S.expand n with
        | .error e => some (.error e, (memo.enter n).leave n)
        | .ok body =>
            match run body (memo.enter n) with
            | none => none
            | some (.error e, memo) => some (.error e, memo.leave n)
            | some (.ok d, memo) => some (.ok d, (memo.leave n).store n d)

/-- Evaluation of a body with at most `frames` bodies open at a time. -/
def memoRun : Nat → κ × List (Except ε ν) → Memo ν δ → Option (Except ε δ × Memo ν δ)
  | 0, _, _ => none
  | frames + 1, body, memo => memoBody S (memoVisit S (memoRun frames)) (.ok body) memo

/-! ### Frames and fuel -/

omit [DecidableEq ν] in
theorem memoItems_mono {visit visit' : ν → Memo ν δ → Option (Except ε δ × Memo ν δ)}
    (hvisit : ∀ n memo out, visit n memo = some out → visit' n memo = some out)
    (items : List (Except ε ν)) (memo : Memo ν δ) {out : Except ε (List δ) × Memo ν δ}
    (h : memoItems visit items memo = some out) : memoItems visit' items memo = some out := by
  induction items generalizing memo out with
  | nil => exact h
  | cons item rest ih =>
      cases item with
      | error e => exact h
      | ok n =>
          rw [memoItems] at h ⊢
          cases hn : visit n memo with
          | none => simp [hn] at h
          | some first =>
              rw [hvisit n memo first hn]
              rw [hn] at h
              obtain ⟨result, memo₁⟩ := first
              cases result with
              | error e => exact h
              | ok d =>
                  dsimp only at h ⊢
                  cases hrest : memoItems visit rest memo₁ with
                  | none => simp [hrest] at h
                  | some last =>
                      rw [ih memo₁ hrest]
                      rw [hrest] at h
                      exact h

variable {S}

/-- What is evaluated with some number of frames is evaluated with as much fuel. -/
theorem memoBody_of_memoRun {frames : Nat} {body : κ × List (Except ε ν)} {memo : Memo ν δ}
    {out : Except ε δ × Memo ν δ} (h : memoRun S frames body memo = some out) :
    memoBody S (memoEval S frames) (.ok body) memo = some out := by
  induction frames generalizing body memo out with
  | zero => simp [memoRun] at h
  | succ frames ih =>
      have hvisit : ∀ n memo out, memoVisit S (memoRun S frames) n memo = some out →
          memoEval S (frames + 1) n memo = some out := by
        intro n memo out hvisited
        rw [memoVisit] at hvisited
        rw [memoEval]
        cases hfind : memo.find n with
        | some d => simpa [hfind] using hvisited
        | none =>
            by_cases hmem : n ∈ memo.visiting
            · simpa [hfind, hmem] using hvisited
            · simp only [hfind, hmem, if_false] at hvisited ⊢
              cases hexpand : S.expand n with
              | error e => simpa [hexpand, memoBody] using hvisited
              | ok below =>
                  simp only [hexpand] at hvisited
                  cases hrun : memoRun S frames below (memo.enter n) with
                  | none => simp [hrun] at hvisited
                  | some done =>
                      rw [hrun] at hvisited
                      rw [ih hrun]
                      exact hvisited
      rw [memoRun] at h
      rw [memoBody] at h ⊢
      cases hitems : memoItems (memoVisit S (memoRun S frames)) body.2 memo with
      | none => simp [hitems] at h
      | some done =>
          rw [memoItems_mono hvisit body.2 memo hitems]
          rw [hitems] at h
          exact h

/-! ### What evaluation leaves -/

/-- The table has the name. -/
def Memo.Has (memo : Memo ν δ) (n : ν) : Prop := n ∈ memo.cache.map Prod.fst

theorem Memo.has_of_find {memo : Memo ν δ} {n : ν} {d : δ} (h : memo.find n = some d) : memo.Has n := by
  obtain ⟨before, after, hcache, -⟩ := List.lookup_eq_some_iff.mp h
  rw [Memo.Has, hcache]
  simp

variable (S) in
/-- The whole closure of the name expands, down to names that hold `prior`. -/
inductive Expanded (prior : ν → Prop) : ν → Prop
  | prior {n : ν} (h : prior n) : Expanded prior n
  | expand {n : ν} {k : κ} {items : List (Except ε ν)} (hexpand : S.expand n = .ok (k, items))
      (hnames : ∀ item ∈ items, ∃ m, item = .ok m) (hbelow : ∀ m, .ok m ∈ items → Expanded prior m) :
      Expanded prior n

omit [DecidableEq ν] in
theorem Expanded.trans {prior prior' : ν → Prop} (hprior : ∀ n, prior n → Expanded S prior' n) {n : ν}
    (h : Expanded S prior n) : Expanded S prior' n := by
  induction h with
  | prior h => exact hprior _ h
  | expand hexpand hnames _ ih => exact .expand hexpand hnames ih

variable (S) in
/-- The stack is as it was, and every name that was added to the table has its closure expanded. -/
structure Extends (memo memo' : Memo ν δ) : Prop where
  visiting : memo'.visiting = memo.visiting
  cache : ∃ added, memo'.cache = added ++ memo.cache ∧ ∀ entry ∈ added, Expanded S memo.Has entry.1

namespace Extends

variable {memo memo₁ memo₂ : Memo ν δ}

omit [DecidableEq ν] in
theorem refl (memo : Memo ν δ) : Extends S memo memo := ⟨rfl, [], rfl, by simp⟩

omit [DecidableEq ν] in
theorem expanded (h : Extends S memo memo₁) {n : ν} (hn : memo₁.Has n) : Expanded S memo.Has n := by
  obtain ⟨added, hcache, hadded⟩ := h.cache
  rw [Memo.Has, hcache, List.map_append, List.mem_append] at hn
  cases hn with
  | inl hnew =>
      obtain ⟨entry, hentry, rfl⟩ := List.mem_map.mp hnew
      exact hadded entry hentry
  | inr hold => exact .prior hold

omit [DecidableEq ν] in
theorem has (h : Extends S memo memo₁) {n : ν} (hn : memo.Has n) : memo₁.Has n := by
  obtain ⟨added, hcache, -⟩ := h.cache
  rw [Memo.Has, hcache, List.map_append]
  exact List.mem_append_right _ hn

omit [DecidableEq ν] in
theorem trans (h₁ : Extends S memo memo₁) (h₂ : Extends S memo₁ memo₂) : Extends S memo memo₂ := by
  obtain ⟨added₁, hcache₁, hadded₁⟩ := h₁.cache
  obtain ⟨added₂, hcache₂, hadded₂⟩ := h₂.cache
  refine ⟨h₂.visiting.trans h₁.visiting, added₂ ++ added₁, ?_, ?_⟩
  · rw [hcache₂, hcache₁, List.append_assoc]
  · intro entry hentry
    rcases List.mem_append.mp hentry with hmem | hmem
    · exact (hadded₂ entry hmem).trans fun n hn => h₁.expanded hn
    · exact hadded₁ entry hmem

/-- A name that was entered is left again. -/
theorem leave {n : ν} (h : Extends S (memo.enter n) memo₁) : Extends S memo (memo₁.leave n) := by
  refine ⟨?_, h.cache⟩
  rw [Memo.leave, h.visiting, Memo.enter]
  exact List.erase_cons_head ..

omit [DecidableEq ν] in
theorem store (h : Extends S memo memo₁) {n : ν} (d : δ) (hn : Expanded S memo.Has n) :
    Extends S memo (memo₁.store n d) := by
  obtain ⟨added, hcache, hadded⟩ := h.cache
  refine ⟨h.visiting, (n, d) :: added, ?_, ?_⟩
  · rw [Memo.store, hcache]
    rfl
  · intro entry hentry
    rcases List.mem_cons.mp hentry with heq | hmem
    · rw [heq]
      exact hn
    · exact hadded entry hmem

end Extends

/-- Visits that return, extend the table and have their name in it after a success. -/
def Returns (visit : ν → Memo ν δ → Option (Except ε δ × Memo ν δ)) (memo : Memo ν δ) (n : ν) : Prop :=
  ∃ result memo', visit n memo = some (result, memo') ∧ Extends S memo memo' ∧
    ∀ d, result = .ok d → memo'.Has n

omit [DecidableEq ν] in
/-- Items whose visits return are evaluated, and after a success all of them are names in the
table. -/
theorem memoItems_returns {visit : ν → Memo ν δ → Option (Except ε δ × Memo ν δ)}
    (items : List (Except ε ν)) (memo : Memo ν δ)
    (hvisit : ∀ n, .ok n ∈ items → ∀ memo₁, memo₁.visiting = memo.visiting → Returns (S := S) visit memo₁ n) :
    ∃ result memo', memoItems visit items memo = some (result, memo') ∧ Extends S memo memo' ∧
      ∀ ds, result = .ok ds → ∀ item ∈ items, ∃ n, item = .ok n ∧ memo'.Has n := by
  induction items generalizing memo with
  | nil => exact ⟨.ok [], memo, rfl, .refl memo, by simp⟩
  | cons item rest ih =>
      cases item with
      | error e => exact ⟨.error e, memo, rfl, .refl memo, by simp⟩
      | ok n =>
          obtain ⟨result, memo₁, hn, hextends, hhas⟩ := hvisit n List.mem_cons_self memo rfl
          rw [memoItems, hn]
          cases result with
          | error e => exact ⟨.error e, memo₁, rfl, hextends, by simp⟩
          | ok d =>
              obtain ⟨result, memo₂, hrest, hextends₂, hnames⟩ := ih memo₁ fun m hm memo₂ hvisiting =>
                hvisit m (List.mem_cons_of_mem _ hm) memo₂ (hvisiting.trans hextends.visiting)
              dsimp only
              rw [hrest]
              cases result with
              | error e => exact ⟨.error e, memo₂, rfl, hextends.trans hextends₂, by simp⟩
              | ok ds =>
                  refine ⟨.ok (d :: ds), memo₂, rfl, hextends.trans hextends₂, fun _ _ item hitem => ?_⟩
                  rcases List.mem_cons.mp hitem with heq | hmem
                  · exact ⟨n, heq, hextends₂.has (hhas d rfl)⟩
                  · exact hnames ds rfl item hmem

/-- Over closed names, a body is evaluated with more frames than there are names off the stack. -/
theorem memoRun_returns (names : List ν) (hclosed : ∀ n ∈ names, ∀ m, Edge S n m → m ∈ names)
    (frames : Nat) (body : κ × List (Except ε ν)) (memo : Memo ν δ)
    (hbody : ∀ n, .ok n ∈ body.2 → n ∈ names)
    (hframes : (names.filter (· ∉ memo.visiting)).length < frames) :
    ∃ result memo', memoRun S frames body memo = some (result, memo') ∧ Extends S memo memo' ∧
      ∀ d, result = .ok d → ∀ item ∈ body.2, ∃ n, item = .ok n ∧ memo'.Has n := by
  induction frames generalizing body memo with
  | zero => omega
  | succ frames ih =>
      have hvisit : ∀ n, .ok n ∈ body.2 → ∀ memo₁, memo₁.visiting = memo.visiting →
          Returns (S := S) (memoVisit S (memoRun S frames)) memo₁ n := by
        intro n hn memo₁ hvisiting
        rw [Returns, memoVisit]
        cases hfind : memo₁.find n with
        | some d => exact ⟨.ok d, memo₁, rfl, .refl memo₁, fun _ _ => Memo.has_of_find hfind⟩
        | none =>
            by_cases hmem : n ∈ memo₁.visiting
            · exact ⟨.error (S.cyclic n), memo₁, by simp [hmem], .refl memo₁, by simp⟩
            · simp only [hmem, if_false]
              cases hexpand : S.expand n with
              | error e => exact ⟨.error e, _, rfl, Extends.leave (.refl _), by simp⟩
              | ok below =>
                  -- one more name of the closed set is on the stack
                  have hfewer : (names.filter (· ∉ (memo₁.enter n).visiting)).length < frames := by
                    have hsub : names.filter (· ∉ (memo₁.enter n).visiting) =
                        (names.filter (· ∉ memo.visiting)).filter (· ≠ n) := by
                      rw [List.filter_filter, Memo.enter, hvisiting]
                      congr 1
                      funext m
                      simp [List.mem_cons, not_or]
                    have hless : ((names.filter (· ∉ memo.visiting)).filter (· ≠ n)).length <
                        (names.filter (· ∉ memo.visiting)).length :=
                      List.length_filter_lt_length_iff_exists.mpr
                        ⟨n, by simpa [hbody n hn, hvisiting] using hmem, by simp⟩
                    rw [hsub]
                    omega
                  have hedge : ∀ m, .ok m ∈ below.2 → Edge S n m := fun m hm => ⟨below.1, below.2, hexpand, hm⟩
                  obtain ⟨result, memo₂, hrun, hextends, hnames⟩ := ih below (memo₁.enter n)
                    (fun m hm => hclosed n (hbody n hn) m (hedge m hm)) hfewer
                  dsimp only
                  rw [hrun]
                  cases result with
                  | error e => exact ⟨.error e, _, rfl, hextends.leave, by simp⟩
                  | ok d =>
                      have hexpanded : Expanded S memo₁.Has n := by
                        refine .expand hexpand (fun item hitem => ?_) fun m hm => ?_
                        · obtain ⟨m, heq, -⟩ := hnames d rfl item hitem
                          exact ⟨m, heq⟩
                        · obtain ⟨m', heq, hhas⟩ := hnames d rfl _ hm
                          obtain rfl : m = m' := Except.ok.inj heq
                          exact hextends.expanded hhas
                      refine ⟨.ok d, _, rfl, hextends.leave.store d hexpanded, fun _ _ => ?_⟩
                      exact List.mem_cons_self
      obtain ⟨result, memo', hitems, hextends, hnames⟩ := memoItems_returns body.2 memo hvisit
      rw [memoRun, memoBody, hitems]
      cases result with
      | error e => exact ⟨.error e, memo', rfl, hextends, by simp⟩
      | ok ds => exact ⟨.ok (S.combine body.1 ds), memo', rfl, hextends, fun _ _ => hnames ds rfl⟩

end MemoEval
