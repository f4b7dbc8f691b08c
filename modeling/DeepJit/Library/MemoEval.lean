import Mathlib.Logic.Relation
import Mathlib.Data.List.Basic
import Mathlib.Order.WellFounded

/-!
# Memoised depth-first evaluation

A dependency system gives every name a body: a piece of own content and the list of names it refers
to, in order, where scanning the body may also stop at an error. The value of a name is its content
combined with the values of the names below it. `eval` computes it by depth-first search with
nothing but the stack of names being expanded, `memoEval` keeps a table of finished names as well.
The main result, `memoEval_of_eval`, says that the table can never be observed: a finished name has
a derivation, a name with a derivation lies on no cycle, so looking it up returns what expanding it
again below any stack would have returned.
-/

namespace MemoEval

open Relation

variable {ν κ δ ε : Type*}

/-- What evaluation needs to know of the names: how one expands, how values combine, and the error
of a name met again below itself. -/
structure System (ν κ δ ε : Type*) where
  expand : ν → Except ε (κ × List (Except ε ν))
  combine : κ → List δ → δ
  cyclic : ν → ε

/-! ### Evaluation with a stack -/

/-- Evaluate the items of a body in order and stop at the first error. `none` is a visit that ran
out of fuel. -/
def evalItems (visit : ν → Option (Except ε δ)) : List (Except ε ν) → Option (Except ε (List δ))
  | [] => some (.ok [])
  | .error e :: _ => some (.error e)
  | .ok n :: rest =>
      match visit n with
      | none => none
      | some (.error e) => some (.error e)
      | some (.ok d) =>
          match evalItems visit rest with
          | none => none
          | some (.error e) => some (.error e)
          | some (.ok ds) => some (.ok (d :: ds))

def evalBody (S : System ν κ δ ε) (visit : ν → Option (Except ε δ)) :
    Except ε (κ × List (Except ε ν)) → Option (Except ε δ)
  | .error e => some (.error e)
  | .ok (k, items) =>
      match evalItems visit items with
      | none => none
      | some (.error e) => some (.error e)
      | some (.ok ds) => some (.ok (S.combine k ds))

def eval [DecidableEq ν] (S : System ν κ δ ε) : Nat → List ν → ν → Option (Except ε δ)
  | 0, _, _ => none
  | fuel + 1, stack, n =>
      if n ∈ stack then some (.error (S.cyclic n))
      else evalBody S (eval S fuel (n :: stack)) (S.expand n)

/-! ### Evaluation with a table -/

/-- The finished names with their values, and the names being expanded. -/
structure Memo (ν δ : Type*) where
  cache : List (ν × δ) := []
  visiting : List ν := []

/-- The stored value of a name. -/
def Memo.find [DecidableEq ν] (memo : Memo ν δ) (n : ν) : Option δ := memo.cache.lookup n

/-- The expansion of a name begins and ends. -/
def Memo.enter (memo : Memo ν δ) (n : ν) : Memo ν δ := { memo with visiting := n :: memo.visiting }

def Memo.leave [DecidableEq ν] (memo : Memo ν δ) (n : ν) : Memo ν δ :=
  { memo with visiting := memo.visiting.erase n }

def Memo.store (memo : Memo ν δ) (n : ν) (d : δ) : Memo ν δ :=
  { memo with cache := (n, d) :: memo.cache }

def memoItems (visit : ν → Memo ν δ → Option (Except ε δ × Memo ν δ)) :
    List (Except ε ν) → Memo ν δ → Option (Except ε (List δ) × Memo ν δ)
  | [], memo => some (.ok [], memo)
  | .error e :: _, memo => some (.error e, memo)
  | .ok n :: rest, memo =>
      match visit n memo with
      | none => none
      | some (.error e, memo) => some (.error e, memo)
      | some (.ok d, memo) =>
          match memoItems visit rest memo with
          | none => none
          | some (.error e, memo) => some (.error e, memo)
          | some (.ok ds, memo) => some (.ok (d :: ds), memo)

def memoBody (S : System ν κ δ ε) (visit : ν → Memo ν δ → Option (Except ε δ × Memo ν δ)) :
    Except ε (κ × List (Except ε ν)) → Memo ν δ → Option (Except ε δ × Memo ν δ)
  | .error e, memo => some (.error e, memo)
  | .ok (k, items), memo =>
      match memoItems visit items memo with
      | none => none
      | some (.error e, memo) => some (.error e, memo)
      | some (.ok ds, memo) => some (.ok (S.combine k ds), memo)

def memoEval [DecidableEq ν] (S : System ν κ δ ε) :
    Nat → ν → Memo ν δ → Option (Except ε δ × Memo ν δ)
  | 0, _, _ => none
  | fuel + 1, n, memo =>
      match memo.find n with
      | some d => some (.ok d, memo)
      | none =>
          if n ∈ memo.visiting then some (.error (S.cyclic n), memo)
          else
            match memoBody S (memoEval S fuel) (S.expand n) (memo.enter n) with
            | none => none
            | some (.error e, memo) => some (.error e, memo.leave n)
            | some (.ok d, memo) => some (.ok d, (memo.leave n).store n d)

/-! ### Derivations

A derivation is a finite tree of successful expansions. It mentions neither a stack nor a table. -/

mutual

inductive Derives (S : System ν κ δ ε) : ν → δ → Prop
  | intro {n : ν} {k : κ} {items : List (Except ε ν)} {ds : List δ}
      (hexpand : S.expand n = .ok (k, items)) (hitems : DerivesItems S items ds) :
      Derives S n (S.combine k ds)

inductive DerivesItems (S : System ν κ δ ε) : List (Except ε ν) → List δ → Prop
  | nil : DerivesItems S [] []
  | cons {n : ν} {d : δ} {items : List (Except ε ν)} {ds : List δ}
      (hhead : Derives S n d) (htail : DerivesItems S items ds) :
      DerivesItems S (.ok n :: items) (d :: ds)

end

/-- One name refers to another. -/
def Edge (S : System ν κ δ ε) (n m : ν) : Prop :=
  ∃ k items, S.expand n = .ok (k, items) ∧ .ok m ∈ items

theorem edge_iff {S : System ν κ δ ε} {n m : ν} {k : κ} {items : List (Except ε ν)}
    (hexpand : S.expand n = .ok (k, items)) : Edge S n m ↔ .ok m ∈ items := by
  constructor
  · rintro ⟨k', items', hexpand', hmem⟩
    rw [hexpand] at hexpand'
    cases hexpand'
    exact hmem
  · exact fun hmem => ⟨k, items, hexpand, hmem⟩

mutual

theorem Derives.acc {S : System ν κ δ ε} {n : ν} {d : δ} :
    Derives S n d → Acc (fun m n => Edge S n m) n
  | .intro hexpand hitems => by
      constructor
      intro m hedge
      exact DerivesItems.acc hitems m ((edge_iff hexpand).mp hedge)

theorem DerivesItems.acc {S : System ν κ δ ε} {items : List (Except ε ν)} {ds : List δ} :
    DerivesItems S items ds → ∀ m, .ok m ∈ items → Acc (fun m n => Edge S n m) m
  | .nil, m, hmem => by simp at hmem
  | .cons hhead htail, m, hmem => by
      rcases List.mem_cons.mp hmem with heq | hrest
      · cases heq
        exact Derives.acc hhead
      · exact DerivesItems.acc htail m hrest

end

private theorem not_rel_self_of_acc {α : Type*} {r : α → α → Prop} {a : α} (h : Acc r a) :
    ¬ r a a := by
  induction h with
  | intro a _ ih => exact fun hr => ih a hr hr

/-- A name with a derivation lies on no cycle of references. -/
theorem Derives.not_cyclic {S : System ν κ δ ε} {n : ν} {d : δ} (h : Derives S n d) :
    ¬ TransGen (Edge S) n n := by
  intro hcycle
  have hswap : TransGen (fun m n => Edge S n m) n n := transGen_swap.mp hcycle
  exact not_rel_self_of_acc (Acc.transGen h.acc) hswap

theorem DerivesItems.exists_derives {S : System ν κ δ ε} {items : List (Except ε ν)} {ds : List δ}
    (h : DerivesItems S items ds) {m : ν} (hmem : .ok m ∈ items) : ∃ d, Derives S m d := by
  induction items generalizing ds with
  | nil => simp at hmem
  | cons item rest ih =>
      cases h with
      | cons hhead htail =>
          rcases List.mem_cons.mp hmem with heq | hrest
          · cases heq
            exact ⟨_, hhead⟩
          · exact ih htail hrest

/-- What holds of a derived name as soon as it holds of the names it refers to holds of every
derived name. -/
theorem Derives.below_induction {S : System ν κ δ ε} {P : ν → Prop}
    (hstep : ∀ n d, Derives S n d → (∀ m, Edge S n m → P m) → P n) {n : ν} {d : δ}
    (h : Derives S n d) : P n := by
  have hacc := h.acc
  induction hacc generalizing d with
  | intro n _ ih =>
      refine hstep n d h fun m hedge => ?_
      obtain ⟨hexpand, hitems⟩ := h
      obtain ⟨d', hd'⟩ := hitems.exists_derives ((edge_iff hexpand).mp hedge)
      exact ih m hedge hd'

/-! ### Bodies of visits that return -/

theorem evalItems_mono {visit visit' : ν → Option (Except ε δ)}
    (hvisit : ∀ n r, visit n = some r → visit' n = some r) (items : List (Except ε ν))
    (r : Except ε (List δ)) (heval : evalItems visit items = some r) :
    evalItems visit' items = some r := by
  induction items generalizing r with
  | nil => exact heval
  | cons item rest ih =>
      cases item with
      | error e => exact heval
      | ok n =>
          rw [evalItems] at heval ⊢
          cases hn : visit n with
          | none => simp [hn] at heval
          | some rn =>
              rw [hvisit n rn hn]
              rw [hn] at heval
              cases rn with
              | error e => exact heval
              | ok d =>
                  cases hrest : evalItems visit rest with
                  | none => simp [hrest] at heval
                  | some rs =>
                      rw [hrest] at heval
                      rw [ih rs hrest]
                      exact heval

theorem evalBody_mono {S : System ν κ δ ε} {visit visit' : ν → Option (Except ε δ)}
    (hvisit : ∀ n r, visit n = some r → visit' n = some r) (body : Except ε (κ × List (Except ε ν)))
    (r : Except ε δ) (heval : evalBody S visit body = some r) :
    evalBody S visit' body = some r := by
  cases body with
  | error e => exact heval
  | ok body =>
      obtain ⟨k, items⟩ := body
      rw [evalBody] at heval ⊢
      cases hitems : evalItems visit items with
      | none => simp [hitems] at heval
      | some rs =>
          rw [evalItems_mono hvisit items rs hitems]
          rw [hitems] at heval
          exact heval

theorem evalItems_isSome {visit : ν → Option (Except ε δ)} (items : List (Except ε ν))
    (hvisit : ∀ n, .ok n ∈ items → (visit n).isSome) : (evalItems visit items).isSome := by
  induction items with
  | nil => rfl
  | cons item rest ih =>
      cases item with
      | error e => rfl
      | ok n =>
          obtain ⟨r, hr⟩ := Option.isSome_iff_exists.mp (hvisit n (by simp))
          obtain ⟨rs, hrs⟩ := Option.isSome_iff_exists.mp (ih fun m hm => hvisit m (by simp [hm]))
          rw [evalItems, hr]
          cases r with
          | error e => rfl
          | ok d => cases rs <;> simp [hrs]

theorem evalBody_isSome {S : System ν κ δ ε} {visit : ν → Option (Except ε δ)}
    (body : Except ε (κ × List (Except ε ν)))
    (hvisit : ∀ k items, body = .ok (k, items) → ∀ n, .ok n ∈ items → (visit n).isSome) :
    (evalBody S visit body).isSome := by
  cases body with
  | error e => rfl
  | ok body =>
      obtain ⟨k, items⟩ := body
      obtain ⟨r, hr⟩ := Option.isSome_iff_exists.mp (evalItems_isSome items (hvisit k items rfl))
      rw [evalBody, hr]
      cases r <;> rfl

section Evaluation

variable [DecidableEq ν]

/-! ### A derivation decides evaluation below every stack it does not meet -/

mutual

theorem Derives.eval_eq {S : System ν κ δ ε} {n : ν} {d : δ} :
    Derives S n d → ∀ (fuel : Nat) (stack : List ν) (r : Except ε δ),
      (∀ s ∈ stack, ¬ ReflTransGen (Edge S) n s) → eval S fuel stack n = some r → r = .ok d
  | @Derives.intro _ _ _ _ _ _ k items ds hexpand hitems => by
      intro fuel stack r hstack heval
      have hnot : n ∉ stack := fun hmem => hstack n hmem .refl
      have hderives : Derives S n (S.combine k ds) := .intro hexpand hitems
      have hbelow : ∀ m, .ok m ∈ items → ∀ s ∈ n :: stack, ¬ ReflTransGen (Edge S) m s := by
        intro m hmem s hs hreach
        have hedge : Edge S n m := (edge_iff hexpand).mpr hmem
        rcases List.mem_cons.mp hs with rfl | hs
        · exact hderives.not_cyclic (.head' hedge hreach)
        · exact hstack s hs (.head hedge hreach)
      cases fuel with
      | zero => simp [eval] at heval
      | succ fuel =>
          rw [eval, if_neg hnot, hexpand, evalBody] at heval
          cases hrun : evalItems (eval S fuel (n :: stack)) items with
          | none => simp [hrun] at heval
          | some result =>
              have hok := DerivesItems.eval_eq hitems fuel (n :: stack) result hbelow hrun
              subst hok
              simpa [hrun] using heval.symm

theorem DerivesItems.eval_eq {S : System ν κ δ ε} {items : List (Except ε ν)} {ds : List δ} :
    DerivesItems S items ds → ∀ (fuel : Nat) (stack : List ν) (r : Except ε (List δ)),
      (∀ m, .ok m ∈ items → ∀ s ∈ stack, ¬ ReflTransGen (Edge S) m s) →
      evalItems (eval S fuel stack) items = some r → r = .ok ds
  | .nil => by
      intro fuel stack r _ heval
      simpa [evalItems] using heval.symm
  | @DerivesItems.cons _ _ _ _ _ m _ rest _ hhead htail => by
      intro fuel stack r hstack heval
      rw [evalItems] at heval
      cases hvisit : eval S fuel stack m with
      | none => simp [hvisit] at heval
      | some result =>
          have hok := Derives.eval_eq hhead fuel stack result (hstack m (by simp)) hvisit
          subst hok
          simp only [hvisit] at heval
          cases hrun : evalItems (eval S fuel stack) rest with
          | none => simp [hrun] at heval
          | some result =>
              have hrest := DerivesItems.eval_eq htail fuel stack result
                (fun m hm => hstack m (by simp [hm])) hrun
              subst hrest
              simpa [hrun] using heval.symm

end

/-! ### The table is transparent -/

/-- Every finished name has a derivation of the value it is stored with. -/
def Memo.Sound (S : System ν κ δ ε) (memo : Memo ν δ) : Prop :=
  ∀ n d, memo.find n = some d → Derives S n d

theorem Memo.sound_empty (S : System ν κ δ ε) (stack : List ν) :
    Memo.Sound S { visiting := stack } := by
  intro n d h
  simp [Memo.find] at h

/-- Storing one more derived name keeps the table sound. -/
theorem Memo.Sound.store {S : System ν κ δ ε} {memo : Memo ν δ} (hsound : memo.Sound S)
    {n : ν} {d : δ} (hderives : Derives S n d) : (memo.store n d).Sound S := by
  intro m d' h
  rw [Memo.find, Memo.store, List.lookup_cons] at h
  by_cases heq : m = n
  · subst heq
    simp only [BEq.rfl, Option.some.injEq] at h
    exact h ▸ hderives
  · simp only [beq_eq_false_iff_ne.mpr heq] at h
    exact hsound m d' h

/-- What one visit with a table has to deliver: the result of the visit without it, a sound table,
the same stack, and a derivation when it succeeds. -/
def Agrees (S : System ν κ δ ε) (Good : δ' → Prop) (stack : List ν) (r : Except ε δ')
    (out : Option (Except ε δ' × Memo ν δ)) : Prop :=
  ∃ memo', out = some (r, memo') ∧ memo'.Sound S ∧ memo'.visiting = stack ∧ ∀ d, r = .ok d → Good d

theorem memoItems_of_evalItems {S : System ν κ δ ε} {stack : List ν}
    {plain : ν → Option (Except ε δ)} {visit : ν → Memo ν δ → Option (Except ε δ × Memo ν δ)}
    (items : List (Except ε ν))
    (hvisit : ∀ n, .ok n ∈ items → ∀ memo r, memo.Sound S → memo.visiting = stack →
      plain n = some r → Agrees S (Derives S n) stack r (visit n memo))
    (memo : Memo ν δ) (r : Except ε (List δ)) (hsound : memo.Sound S)
    (hstack : memo.visiting = stack) (hplain : evalItems plain items = some r) :
    Agrees S (DerivesItems S items) stack r (memoItems visit items memo) := by
  induction items generalizing memo r with
  | nil =>
      cases hplain
      exact ⟨memo, rfl, hsound, hstack, fun d hd => by cases hd; exact .nil⟩
  | cons item rest ih =>
      cases item with
      | error e =>
          cases hplain
          exact ⟨memo, rfl, hsound, hstack, fun d hd => by cases hd⟩
      | ok n =>
          rw [evalItems] at hplain
          cases hn : plain n with
          | none => simp [hn] at hplain
          | some rn =>
              obtain ⟨memo₁, hout₁, hsound₁, hstack₁, hgood₁⟩ :=
                hvisit n (by simp) memo rn hsound hstack hn
              cases rn with
              | error e =>
                  simp only [hn, Option.some.injEq] at hplain
                  subst hplain
                  exact ⟨memo₁, by rw [memoItems, hout₁], hsound₁, hstack₁, fun d hd => by cases hd⟩
              | ok d =>
                  simp only [hn] at hplain
                  cases hrest : evalItems plain rest with
                  | none => simp [hrest] at hplain
                  | some rrest =>
                      obtain ⟨memo₂, hout₂, hsound₂, hstack₂, hgood₂⟩ :=
                        ih (fun m hm => hvisit m (by simp [hm])) memo₁ rrest hsound₁ hstack₁ hrest
                      cases rrest with
                      | error e =>
                          simp only [hrest, Option.some.injEq] at hplain
                          subst hplain
                          exact ⟨memo₂, by simp only [memoItems, hout₁, hout₂], hsound₂, hstack₂,
                            fun d hd => by cases hd⟩
                      | ok ds =>
                          simp only [hrest, Option.some.injEq] at hplain
                          subst hplain
                          refine ⟨memo₂, by simp only [memoItems, hout₁, hout₂], hsound₂, hstack₂, ?_⟩
                          intro all hall
                          cases hall
                          exact .cons (hgood₁ d rfl) (hgood₂ ds rfl)

/-- What a successful body evaluates to. -/
def DerivesBody (S : System ν κ δ ε) (body : Except ε (κ × List (Except ε ν))) (d : δ) : Prop :=
  ∃ k items ds, body = .ok (k, items) ∧ DerivesItems S items ds ∧ d = S.combine k ds

theorem memoBody_of_evalBody {S : System ν κ δ ε} {stack : List ν}
    {plain : ν → Option (Except ε δ)} {visit : ν → Memo ν δ → Option (Except ε δ × Memo ν δ)}
    (body : Except ε (κ × List (Except ε ν)))
    (hvisit : ∀ k items, body = .ok (k, items) → ∀ n, .ok n ∈ items → ∀ memo r, memo.Sound S →
      memo.visiting = stack → plain n = some r → Agrees S (Derives S n) stack r (visit n memo))
    (memo : Memo ν δ) (r : Except ε δ) (hsound : memo.Sound S) (hstack : memo.visiting = stack)
    (hplain : evalBody S plain body = some r) :
    Agrees S (DerivesBody S body) stack r (memoBody S visit body memo) := by
  cases body with
  | error e =>
      cases hplain
      exact ⟨memo, rfl, hsound, hstack, fun d hd => by cases hd⟩
  | ok body =>
      obtain ⟨k, items⟩ := body
      rw [evalBody] at hplain
      cases hitems : evalItems plain items with
      | none => simp [hitems] at hplain
      | some ritems =>
          obtain ⟨memo₁, hout, hsound₁, hstack₁, hgood⟩ :=
            memoItems_of_evalItems items (hvisit k items rfl) memo ritems hsound hstack hitems
          cases ritems with
          | error e =>
              simp only [hitems, Option.some.injEq] at hplain
              subst hplain
              exact ⟨memo₁, by simp only [memoBody, hout], hsound₁, hstack₁, fun d hd => by cases hd⟩
          | ok ds =>
              simp only [hitems, Option.some.injEq] at hplain
              subst hplain
              refine ⟨memo₁, by simp only [memoBody, hout], hsound₁, hstack₁, ?_⟩
              intro d hd
              cases hd
              exact ⟨k, items, ds, rfl, hgood ds rfl, rfl⟩

/-- The table cannot be observed. Below a stack of names that all refer, through others, to `n`, the
visit with a sound table gives what the visit without one gives. -/
theorem memoEval_of_eval {S : System ν κ δ ε} (fuel : Nat) (n : ν) (memo : Memo ν δ)
    (r : Except ε δ) (hsound : memo.Sound S) (hpath : ∀ s ∈ memo.visiting, TransGen (Edge S) s n)
    (heval : eval S fuel memo.visiting n = some r) :
    Agrees S (Derives S n) memo.visiting r (memoEval S fuel n memo) := by
  induction fuel generalizing n memo r with
  | zero => simp [eval] at heval
  | succ fuel ih =>
      rw [memoEval]
      cases hlookup : memo.find n with
      | some d =>
          -- a stored name is on no cycle, so nothing on the stack can be below it
          have hderives := hsound n d hlookup
          have hclear : ∀ s ∈ memo.visiting, ¬ ReflTransGen (Edge S) n s := fun s hs hreach =>
            hderives.not_cyclic (TransGen.trans_right hreach (hpath s hs))
          have hr := hderives.eval_eq (fuel + 1) memo.visiting r hclear heval
          subst hr
          exact ⟨memo, rfl, hsound, rfl, fun d' hd' => by cases hd'; exact hderives⟩
      | none =>
          by_cases hmem : n ∈ memo.visiting
          · rw [eval, if_pos hmem] at heval
            cases heval
            exact ⟨memo, by simp [hmem], hsound, rfl, fun d hd => by cases hd⟩
          · rw [eval, if_neg hmem] at heval
            have hvisit : ∀ k items, S.expand n = .ok (k, items) → ∀ m, .ok m ∈ items →
                ∀ memo₁ r₁, memo₁.Sound S → memo₁.visiting = n :: memo.visiting →
                eval S fuel (n :: memo.visiting) m = some r₁ →
                Agrees S (Derives S m) (n :: memo.visiting) r₁ (memoEval S fuel m memo₁) := by
              intro k items hexpand m hm memo₁ r₁ hsound₁ hstack₁ heval₁
              have hedge : Edge S n m := (edge_iff hexpand).mpr hm
              have hpath₁ : ∀ s ∈ memo₁.visiting, TransGen (Edge S) s m := by
                intro s hs
                rw [hstack₁] at hs
                rcases List.mem_cons.mp hs with rfl | hs
                · exact .single hedge
                · exact (hpath s hs).tail hedge
              rw [← hstack₁] at heval₁ ⊢
              exact ih m memo₁ r₁ hsound₁ hpath₁ heval₁
            obtain ⟨memo₁, hout, hsound₁, hstack₁, hgood⟩ :=
              memoBody_of_evalBody (S.expand n) hvisit
              (memo.enter n) r hsound rfl heval
            have hpop : (memo₁.leave n).visiting = memo.visiting := by
              rw [Memo.leave, hstack₁]
              simp
            simp only [hmem, if_false, hout]
            cases r with
            | error e => exact ⟨_, rfl, hsound₁, hpop, fun d hd => by cases hd⟩
            | ok d =>
                obtain ⟨k, items, ds, hexpand, hitems, rfl⟩ := hgood d rfl
                have hderives : Derives S n (S.combine k ds) := .intro hexpand hitems
                exact ⟨_, rfl, Memo.Sound.store hsound₁ hderives, hpop,
                  fun d hd => by cases hd; exact hderives⟩

/-! ### Fuel

Fuel only decides whether evaluation returns. Every expansion puts a new name on the stack, so over
a finite set of names that is closed under references the depth of the search is at most their
number. -/

/-- More fuel gives the same result. -/
theorem eval_mono {S : System ν κ δ ε} (fuel : Nat) (stack : List ν) (n : ν) (r : Except ε δ)
    (heval : eval S fuel stack n = some r) : eval S (fuel + 1) stack n = some r := by
  induction fuel generalizing stack n r with
  | zero => simp [eval] at heval
  | succ fuel ih =>
      rw [eval] at heval ⊢
      by_cases hmem : n ∈ stack
      · simpa [hmem] using heval
      · rw [if_neg hmem] at heval ⊢
        exact evalBody_mono (fun m r hm => ih (n :: stack) m r hm) (S.expand n) r heval

theorem eval_isSome {S : System ν κ δ ε} (names : List ν)
    (hclosed : ∀ n ∈ names, ∀ m, Edge S n m → m ∈ names) (fuel : Nat) (stack : List ν) (n : ν)
    (hn : n ∈ names) (hfuel : (names.filter (· ∉ stack)).length < fuel) :
    (eval S fuel stack n).isSome := by
  induction fuel generalizing stack n with
  | zero => omega
  | succ fuel ih =>
      rw [eval]
      by_cases hmem : n ∈ stack
      · simp [hmem]
      · rw [if_neg hmem]
        have hless : (names.filter (· ∉ n :: stack)).length < (names.filter (· ∉ stack)).length := by
          have hsub : names.filter (· ∉ n :: stack) = (names.filter (· ∉ stack)).filter (· ≠ n) := by
            rw [List.filter_filter]
            congr 1
            funext m
            simp [List.mem_cons, not_or]
          rw [hsub]
          exact List.length_filter_lt_length_iff_exists.mpr ⟨n, by simp [hn, hmem], by simp⟩
        apply evalBody_isSome
        intro k items hexpand m hm
        exact ih (n :: stack) m (hclosed n hn m ((edge_iff hexpand).mpr hm)) (by omega)

end Evaluation

end MemoEval
