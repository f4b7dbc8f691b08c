import Mathlib.Data.Nat.Bitwise
import Mathlib.Order.Bounds.Basic

/-!
# Rounding with masks

Machine code rounds an offset up to a power of two by adding the power less one and clearing the low
bits. As long as the sum does not wrap, that is the least multiple which is not below the offset.
-/

namespace Rounding

variable {w : Nat}

/-- `(n + a - 1) & ~(a - 1)`. -/
def maskUp (n a : BitVec w) : BitVec w := (n + a - 1) &&& ~~~(a - 1)

theorem toNat_one (hw : 1 < 2 ^ w) : (1 : BitVec w).toNat = 1 := Nat.mod_eq_of_lt hw

/-- Clearing the bits below the power rounds down. -/
theorem toNat_and_not_mask (n a : BitVec w) {k : Nat} (ha : a.toNat = 2 ^ k) :
    (n &&& ~~~(a - 1)).toNat = n.toNat / 2 ^ k * 2 ^ k := by
  have hpos : 0 < 2 ^ k := Nat.two_pow_pos k
  have hlt : 2 ^ k < 2 ^ w := ha ▸ a.isLt
  have hmask : (a - 1).toNat = 2 ^ k - 1 := by
    have hone : (1 : BitVec w).toNat = 1 := toNat_one (Nat.lt_of_le_of_lt hpos hlt)
    rw [BitVec.toNat_sub_of_le, ha, hone]
    rw [BitVec.le_def, ha, hone]
    omega
  apply Nat.eq_of_testBit_eq
  intro i
  rw [Nat.testBit_mul_two_pow, Nat.testBit_div_two_pow, BitVec.testBit_toNat, BitVec.getLsbD_and,
    BitVec.getLsbD_not, ← BitVec.testBit_toNat n, ← BitVec.testBit_toNat (a - 1), hmask, Nat.testBit_two_pow_sub_one]
  by_cases hlow : i < k
  · have hnot : ¬ k ≤ i := by omega
    simp [hlow, hnot]
  · have hle : k ≤ i := by omega
    simp only [hlow, hle, decide_true, decide_false, Bool.not_false, Bool.true_and, Bool.and_true,
      Nat.sub_add_cancel]
    by_cases hwidth : i < w
    · simp [hwidth]
    · have hzero : n.toNat.testBit i = false :=
        Nat.testBit_lt_two_pow (Nat.lt_of_lt_of_le n.isLt (Nat.pow_le_pow_right (by omega) (by omega)))
      simp [hzero]

theorem isLeast_roundUp (n : Nat) {a : Nat} (ha : 0 < a) :
    IsLeast {m | n ≤ m ∧ a ∣ m} ((n + (a - 1)) / a * a) := by
  have hdiv := Nat.div_add_mod (n + (a - 1)) a
  have hmod := Nat.mod_lt (n + (a - 1)) ha
  rw [Nat.mul_comm] at hdiv
  refine ⟨⟨by omega, Nat.dvd_mul_left _ _⟩, ?_⟩
  rintro m ⟨hle, q, rfl⟩
  rw [Nat.mul_comm a q]
  apply Nat.mul_le_mul_right
  have hlt : (n + (a - 1)) / a < q + 1 := by
    rw [Nat.div_lt_iff_lt_mul ha, Nat.add_mul, Nat.mul_comm q a]
    omega
  omega

/-- Rounding up with a mask gives the least multiple. -/
theorem isLeast_maskUp (n a : BitVec w) {k : Nat} (ha : a.toNat = 2 ^ k)
    (hsum : n.toNat + a.toNat ≤ 2 ^ w) :
    IsLeast {m | n.toNat ≤ m ∧ a.toNat ∣ m} (maskUp n a).toNat := by
  have hpos : 0 < 2 ^ k := Nat.two_pow_pos k
  have hadd : (n + a - 1).toNat = n.toNat + (2 ^ k - 1) := by
    have hone : (1 : BitVec w).toNat = 1 := toNat_one (Nat.lt_of_le_of_lt hpos (ha ▸ a.isLt))
    rw [BitVec.toNat_sub, BitVec.toNat_add, hone, ← ha]
    by_cases hwraps : n.toNat + a.toNat = 2 ^ w
    · rw [hwraps, Nat.mod_self, Nat.add_zero, Nat.mod_eq_of_lt (by omega)]
      omega
    · rw [Nat.mod_eq_of_lt (by omega : n.toNat + a.toNat < 2 ^ w),
        show 2 ^ w - 1 + (n.toNat + a.toNat) = 2 ^ w + (n.toNat + (a.toNat - 1)) by omega,
        Nat.add_mod_left, Nat.mod_eq_of_lt (by omega)]
  rw [maskUp, toNat_and_not_mask _ a ha, hadd, ha]
  exact isLeast_roundUp n.toNat hpos

end Rounding
