import LoxCore.Proofs.Decimal.Nearest
import Mathlib

/-!
The range of numbers. A whole number reads as infinity from the midpoint between the largest finite
number and the next power of two on.
-/
namespace LoxCore

namespace Double

/-- The midpoint between the largest finite number, `(2 ^ 53 - 1) * 2 ^ 971`, and `2 ^ 1024`. -/
def overflow : ℕ :=
  (2 ^ 54 - 1) * 2 ^ 970

theorem roundRatio_le (n d : ℕ) : roundRatio n d ≤ n / d + 1 := by
  unfold roundRatio
  split
  · omega
  split <;> omega

theorem le_roundRatio (n d : ℕ) : n / d ≤ roundRatio n d := by
  unfold roundRatio
  split
  · omega
  split <;> omega

section Whole

variable {n : ℕ} (hn : n ≠ 0)
include hn

theorem log2Ratio_one : log2Ratio n 1 = n.log2 := by
  have hone : Nat.log2 1 = 0 := by decide
  have hreaches : reaches n.log2 n 1 = true := by
    simpa [reaches] using Nat.log2_self_le hn
  simp [log2Ratio, hone, hreaches]

/-- The magnitude nearest to a whole number. The differences are those of natural numbers, so at most
one of the two powers is not one. -/
theorem nearest_one : nearest n 1 = min ((n.log2 + 1022) * 2 ^ 52 +
    roundRatio (n * 2 ^ (52 - n.log2)) (2 ^ (n.log2 - 52))) infinityBits := by
  have hq : max ((n.log2 : ℤ) - 52) (-1074) = (n.log2 : ℤ) - 52 := by omega
  have hneg : (-((n.log2 : ℤ) - 52)).toNat = 52 - n.log2 := by omega
  have hpos : ((n.log2 : ℤ) - 52).toNat = n.log2 - 52 := by omega
  have hfield : ((n.log2 : ℤ) - 52 + 1074).toNat = n.log2 + 1022 := by omega
  simp only [nearest, hn, if_false, log2Ratio_one hn, hq, hneg, hpos, hfield, Nat.pow_eq,
    Nat.one_mul]
  rfl

/-- The significand has 53 bits, unless it rounds up to the next power of two. -/
theorem significand_bounds :
    2 ^ 52 ≤ n * 2 ^ (52 - n.log2) / 2 ^ (n.log2 - 52) ∧
      n * 2 ^ (52 - n.log2) / 2 ^ (n.log2 - 52) < 2 ^ 53 := by
  have hpos : 0 < 2 ^ (n.log2 - 52) := Nat.two_pow_pos _
  have hexp : n.log2 + (52 - n.log2) = 52 + (n.log2 - 52) := by omega
  constructor
  · rw [Nat.le_div_iff_mul_le hpos, ← Nat.pow_add, ← hexp, Nat.pow_add]
    exact Nat.mul_le_mul_right _ (Nat.log2_self_le hn)
  · have hexp' : 53 + (n.log2 - 52) = n.log2 + 1 + (52 - n.log2) := by omega
    rw [Nat.div_lt_iff_lt_mul hpos, ← Nat.pow_add, hexp', Nat.pow_add]
    exact Nat.mul_lt_mul_of_pos_right Nat.lt_log2_self (Nat.two_pow_pos _)

end Whole

/-- A significand of 53 ones rounds up from one half on. -/
theorem roundRatio_carries {n h : ℕ} (hh : 0 < h) (hn : n / (2 * h) < 2 ^ 53) :
    2 ^ 53 ≤ roundRatio n (2 * h) ↔ (2 ^ 54 - 1) * h ≤ n := by
  have hrest : n % (2 * h) < 2 * h := Nat.mod_lt _ (by omega)
  have hdiv : 2 * h * (n / (2 * h)) + n % (2 * h) = n := Nat.div_add_mod _ _
  by_cases hones : n / (2 * h) = 2 ^ 53 - 1
  · have hround : 2 ^ 53 ≤ roundRatio n (2 * h) ↔ h ≤ n % (2 * h) := by
      simp only [roundRatio, hones]
      split
      · omega
      split <;> omega
    rw [hones] at hdiv
    rw [hround]
    omega
  · have hless : n / (2 * h) ≤ 2 ^ 53 - 2 := by omega
    have hround := roundRatio_le n (2 * h)
    have hbelow := Nat.mul_le_mul_left (2 * h) hless
    omega

/-- A whole number reads as infinity from the overflow on. -/
theorem nearest_one_eq_infinity_iff (n : ℕ) : nearest n 1 = infinityBits ↔ overflow ≤ n := by
  unfold overflow
  obtain ⟨half, hhalf⟩ : ∃ half, half = 2 ^ 970 := ⟨_, rfl⟩
  have hpos : 0 < half := by
    rw [hhalf]
    positivity
  rw [← hhalf]
  by_cases hn : n = 0
  · have hzero : nearest 0 1 = 0 := rfl
    rw [hn, hzero]
    unfold infinityBits
    omega
  obtain ⟨hlow, hhigh⟩ := significand_bounds hn
  have hbelow := le_roundRatio (n * 2 ^ (52 - n.log2)) (2 ^ (n.log2 - 52))
  have habove := roundRatio_le (n * 2 ^ (52 - n.log2)) (2 ^ (n.log2 - 52))
  rw [nearest_one hn]
  unfold infinityBits
  rcases Nat.lt_trichotomy n.log2 1023 with hlog | hlog | hlog
  · have hless : n < 2 ^ 53 * half := by
      rw [hhalf, ← Nat.pow_add]
      have hexp : n.log2 + 1 ≤ 53 + 970 := by omega
      have hpow := Nat.pow_le_pow_right Nat.two_pos hexp
      exact Nat.lt_of_lt_of_le Nat.lt_log2_self hpow
    omega
  · have hscale : n * 2 ^ (52 - n.log2) = n := by
      have hnone : 52 - 1023 = 0 := rfl
      rw [hlog, hnone, Nat.pow_zero, Nat.mul_one]
    have hunit : 2 ^ (n.log2 - 52) = 2 * half := by
      have hlast : n.log2 - 52 = 970 + 1 := by omega
      have hsucc : ∀ k, 2 ^ (k + 1) = 2 * 2 ^ k := fun _ => Nat.pow_succ'
      rw [hlast, hsucc, ← hhalf]
    rw [hscale, hunit] at hhigh
    have hcarries := roundRatio_carries hpos hhigh
    rw [hscale, hunit] at habove ⊢
    omega
  · have hmore : 2 ^ 54 * half ≤ n := by
      rw [hhalf, ← Nat.pow_add]
      have hexp : 54 + 970 ≤ n.log2 := by omega
      have hpow := Nat.pow_le_pow_right Nat.two_pos hexp
      exact Nat.le_trans hpow (Nat.log2_self_le hn)
    omega

end Double

/-- A whole number written as a fraction reads as infinity from the overflow on. -/
theorem Decimal.nearest_eq_infinity_iff (n : ℕ) :
    nearest ⟨n, 0⟩ = Double.infinityBits ↔ Double.overflow ≤ n := by
  rw [← Double.nearest_one_eq_infinity_iff]
  by_cases hn : n = 0
  · subst hn
    rfl
  have hpoint : point ⟨n, 0⟩ = (digits n).length := by simp [point]
  have hlow : ¬point ⟨n, 0⟩ ≤ -330 := by omega
  by_cases hhigh : 310 < point ⟨n, 0⟩
  · -- A number of so many digits is beyond the overflow.
    have hlarge : 10 ^ 310 ≤ n := by
      rw [← Nat.not_lt, ← Nat.length_toDigits_le_iff (b := 10) (by decide) (by decide)]
      rw [hpoint] at hhigh
      simp only [digits] at hhigh
      omega
    have hoverflow : Double.overflow ≤ 10 ^ 310 := by decide +kernel
    simp only [nearest, hn, hlow, hhigh, or_self, if_true, if_false, true_iff]
    exact (Double.nearest_one_eq_infinity_iff n).mpr (Nat.le_trans hoverflow hlarge)
  · simp only [nearest, hn, hlow, hhigh, or_self, if_false, Int.toNat_zero, Int.neg_zero, Nat.pow_eq,
      Nat.pow_zero, Nat.mul_one]

end LoxCore
