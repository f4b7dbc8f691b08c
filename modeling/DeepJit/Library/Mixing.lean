import Mathlib.Data.BitVec
import Mathlib.Data.Fintype.EquivFin
import Mathlib.Data.List.Basic

/-!
# Mixing steps that lose nothing

The steps of a multiplicative hash over words of a fixed width, as bijections: xor with a constant,
xor with a shifted copy, multiplication by a unit. A hash that is a fold of such steps keeps apart
two states for ever, and so two inputs of which one symbol differs.
-/

namespace Mixing

open Function

section

variable {w : Nat}

instance finite_bitVec : Finite (BitVec w) :=
  Finite.of_injective BitVec.toFin fun _ _ => BitVec.eq_of_toFin_eq

theorem xor_bijective (c : BitVec w) : Bijective fun x : BitVec w => x ^^^ c :=
  Injective.bijective_of_finite fun _ _ h => (BitVec.xor_left_inj c).mp h

/-- A factor with an inverse can be divided out. -/
theorem mul_bijective {a b : BitVec w} (hunit : a * b = 1#w) :
    Bijective fun x : BitVec w => x * a := by
  apply Injective.bijective_of_finite
  intro x y h
  have hscaled : x * a * b = y * a * b := congrArg (· * b) h
  rwa [BitVec.mul_assoc, BitVec.mul_assoc, hunit, BitVec.mul_one, BitVec.mul_one] at hscaled

/-- The bits are recovered from the highest one down, since a positive shift reads higher ones. -/
theorem xorShift_bijective {k : Nat} (hk : 0 < k) :
    Bijective fun x : BitVec w => x ^^^ (x >>> k) := by
  apply Injective.bijective_of_finite
  intro x y h
  have hbit : ∀ d i, w - i = d → x.getLsbD i = y.getLsbD i := by
    intro d
    induction d using Nat.strong_induction_on with
    | _ d ih =>
        intro i hi
        by_cases hwidth : w ≤ i
        · rw [BitVec.getLsbD_of_ge x i hwidth, BitVec.getLsbD_of_ge y i hwidth]
        · have hhigher : x.getLsbD (k + i) = y.getLsbD (k + i) :=
            ih (w - (k + i)) (by omega) (k + i) rfl
          have hmixed := congrArg (BitVec.getLsbD · i) h
          simp only [BitVec.getLsbD_xor, BitVec.getLsbD_ushiftRight, hhigher] at hmixed
          exact Bool.xor_left_inj.mp hmixed
  apply BitVec.eq_of_getLsbD_eq
  intro i _
  exact hbit (w - i) i rfl

end

/-! ### Folds of injective steps -/

section

variable {α σ : Type*} {step : σ → α → σ}

theorem foldl_injective (hstep : ∀ a, Injective fun s => step s a) (l : List α) :
    Injective fun s => l.foldl step s := by
  induction l with
  | nil => exact injective_id
  | cons a l ih => exact ih.comp (hstep a)

/-- Two inputs of one length that differ in exactly one place. -/
def DifferOnce (l l' : List α) : Prop := l.length = l'.length ∧ ∃! i : Nat, l[i]? ≠ l'[i]?

theorem DifferOnce.exists_split {l l' : List α} (h : DifferOnce l l') :
    ∃ front a a' back, a ≠ a' ∧ l = front ++ a :: back ∧ l' = front ++ a' :: back := by
  obtain ⟨hlength, i, hi, honly⟩ := h
  have hsame : ∀ j, j ≠ i → l[j]? = l'[j]? := by
    intro j hj
    by_contra hdiffer
    exact hj (honly j hdiffer)
  have hlt : i < l.length := by
    by_contra hge
    apply hi
    rw [List.getElem?_eq_none (by omega), List.getElem?_eq_none (by omega)]
  have hlt' : i < l'.length := hlength ▸ hlt
  have hfront : l.take i = l'.take i := by
    apply List.ext_getElem?
    intro j
    by_cases hj : j < i
    · rw [List.getElem?_take_of_lt hj, List.getElem?_take_of_lt hj, hsame j (by omega)]
    · rw [List.getElem?_take_eq_none (by omega), List.getElem?_take_eq_none (by omega)]
  have hback : l.drop (i + 1) = l'.drop (i + 1) := by
    apply List.ext_getElem?
    intro j
    rw [List.getElem?_drop, List.getElem?_drop, hsame (i + 1 + j) (by omega)]
  refine ⟨l.take i, l[i], l'[i], l.drop (i + 1), ?_, ?_, ?_⟩
  · intro heq
    apply hi
    rw [List.getElem?_eq_getElem hlt, List.getElem?_eq_getElem hlt', heq]
  · rw [← List.drop_eq_getElem_cons hlt, List.take_append_drop]
  · rw [hfront, hback, ← List.drop_eq_getElem_cons hlt', List.take_append_drop]

theorem differOnce_append {a a' : α} (hne : a ≠ a') (front back : List α) :
    DifferOnce (front ++ a :: back) (front ++ a' :: back) := by
  refine ⟨by simp, front.length, by simpa using hne, ?_⟩
  intro i hi
  by_contra hother
  apply hi
  by_cases hfront : i < front.length
  · rw [List.getElem?_append_left hfront, List.getElem?_append_left hfront]
  · obtain ⟨k, hk⟩ : ∃ k, i - front.length = k + 1 := ⟨i - front.length - 1, by omega⟩
    rw [List.getElem?_append_right (by omega), List.getElem?_append_right (by omega), hk,
      List.getElem?_cons_succ, List.getElem?_cons_succ]

/-- One differing symbol separates the states, and the steps after it keep them apart. -/
theorem foldl_ne_of_differOnce (hstep : ∀ a, Injective fun s => step s a)
    (hsymbol : ∀ s, Injective (step s)) (s : σ) {l l' : List α} (h : DifferOnce l l') :
    l.foldl step s ≠ l'.foldl step s := by
  obtain ⟨front, a, a', back, hne, rfl, rfl⟩ := h.exists_split
  rw [List.foldl_append, List.foldl_append, List.foldl_cons, List.foldl_cons]
  intro heq
  exact hne (hsymbol _ (foldl_injective hstep back heq))

end

end Mixing
