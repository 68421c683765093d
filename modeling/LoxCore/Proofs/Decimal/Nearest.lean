import LoxCore.Decimal
import Mathlib

/-!
Rounding a fraction to the nearest magnitude looks only at the number that the fraction denotes, and
finds again a magnitude that denotes exactly that number.
-/
namespace LoxCore

theorem zpow_eq_div {b : ℚ} (hb : b ≠ 0) (k : ℤ) : b ^ k = b ^ k.toNat / b ^ (-k).toNat := by
  rw [← zpow_natCast, ← zpow_natCast, ← zpow_sub₀ hb]
  congr 1
  omega

theorem zpow_le_zpow_of_pow {a b m n : ℕ} (h : a ^ m ≤ b ^ n) :
    (a : ℚ) ^ (m : ℤ) ≤ (b : ℚ) ^ (n : ℤ) := by
  rw [zpow_natCast, zpow_natCast]
  exact_mod_cast h

theorem zpow_neg_le_of_pow {a b m n : ℕ} (ha : 0 < a) (h : a ^ m ≤ b ^ n) :
    (b : ℚ) ^ (-n : ℤ) ≤ (a : ℚ) ^ (-m : ℤ) := by
  rw [zpow_neg, zpow_neg]
  exact inv_anti₀ (by positivity) (zpow_le_zpow_of_pow h)

namespace Double

/-! Binary logarithms of ratios. -/

theorem reaches_iff {k : ℤ} {n d : ℕ} (hd : 0 < d) :
    reaches k n d = true ↔ (2 : ℚ) ^ k ≤ (n : ℚ) / d := by
  rw [reaches, decide_eq_true_eq, zpow_eq_div two_ne_zero,
    div_le_div_iff₀ (by positivity) (by positivity), mul_comm]
  exact_mod_cast Iff.rfl

theorem two_pow_log2_le {n : ℕ} (hn : 0 < n) : (2 : ℚ) ^ (n.log2 : ℤ) ≤ n := by
  rw [zpow_natCast]
  exact_mod_cast Nat.log2_self_le hn.ne'

theorem lt_two_pow_log2 (n : ℕ) : (n : ℚ) < (2 : ℚ) ^ ((n.log2 : ℤ) + 1) := by
  have h : n < 2 ^ (n.log2 + 1) := Nat.lt_log2_self
  exact_mod_cast h

/-- The estimate from the lengths of numerator and denominator is the logarithm or one more. -/
theorem log2Ratio_eq {n d : ℕ} (hn : 0 < n) (hd : 0 < d) :
    log2Ratio n d = Int.log 2 ((n : ℚ) / d) := by
  have hratio : (0 : ℚ) < (n : ℚ) / d := by positivity
  have hd' : (0 : ℚ) < d := by exact_mod_cast hd
  have habove : (n : ℚ) / d < ((2 : ℕ) : ℚ) ^ ((n.log2 : ℤ) - d.log2 + 1) := by
    rw [div_lt_iff₀ hd']
    calc (n : ℚ) < 2 ^ ((n.log2 : ℤ) + 1) := lt_two_pow_log2 n
      _ = 2 ^ ((n.log2 : ℤ) - d.log2 + 1) * 2 ^ (d.log2 : ℤ) := by
        rw [← zpow_add₀ two_ne_zero]
        congr 1
        ring
      _ ≤ 2 ^ ((n.log2 : ℤ) - d.log2 + 1) * d := by
        gcongr
        exact two_pow_log2_le hd
  have hbelow : ((2 : ℕ) : ℚ) ^ ((n.log2 : ℤ) - d.log2 - 1) ≤ (n : ℚ) / d := by
    rw [le_div_iff₀ hd']
    calc (2 : ℚ) ^ ((n.log2 : ℤ) - d.log2 - 1) * d
        ≤ 2 ^ ((n.log2 : ℤ) - d.log2 - 1) * 2 ^ ((d.log2 : ℤ) + 1) := by
          gcongr
          exact (lt_two_pow_log2 d).le
      _ = 2 ^ (n.log2 : ℤ) := by
        rw [← zpow_add₀ two_ne_zero]
        congr 1
        ring
      _ ≤ n := two_pow_log2_le hn
  rw [Int.lt_zpow_iff_log_lt one_lt_two hratio] at habove
  rw [Int.zpow_le_iff_le_log one_lt_two hratio] at hbelow
  have hreaches := reaches_iff (k := (n.log2 : ℤ) - d.log2) (n := n) hd
  rw [← Nat.cast_ofNat, Int.zpow_le_iff_le_log one_lt_two hratio] at hreaches
  simp only [log2Ratio]
  split
  · have := hreaches.mp ‹_›
    omega
  · have := mt hreaches.mpr ‹_›
    omega

/-! Rounding a ratio. -/

theorem roundRatio_mul (m : ℕ) {d : ℕ} (hd : 0 < d) : roundRatio (m * d) d = m := by
  simp [roundRatio, hd]

theorem roundRatio_scale {k : ℕ} (hk : 0 < k) (n d : ℕ) :
    roundRatio (k * n) (k * d) = roundRatio n d := by
  have hlow : 2 * (k * (n % d)) < k * d ↔ 2 * (n % d) < d := by
    rw [Nat.mul_left_comm, Nat.mul_lt_mul_left hk]
  have hhigh : k * d < 2 * (k * (n % d)) ↔ d < 2 * (n % d) := by
    rw [Nat.mul_left_comm, Nat.mul_lt_mul_left hk]
  simp only [roundRatio, Nat.mul_mod_mul_left, Nat.mul_div_mul_left _ _ hk, hlow, hhigh]

theorem roundRatio_congr {n d n' d' : ℕ} (hd : 0 < d) (hd' : 0 < d') (h : n * d' = n' * d) :
    roundRatio n d = roundRatio n' d' := by
  rw [← roundRatio_scale hd' n d, ← roundRatio_scale hd n' d', Nat.mul_comm d' n, h,
    Nat.mul_comm n' d, Nat.mul_comm d' d]

/-- Rounding to a magnitude looks only at the ratio. -/
theorem nearest_congr {n d n' d' : ℕ} (hd : 0 < d) (hd' : 0 < d') (h : n * d' = n' * d) :
    nearest n d = nearest n' d' := by
  have hzero : n = 0 ↔ n' = 0 := by
    constructor
    · rintro rfl
      rw [Nat.zero_mul] at h
      exact (Nat.mul_eq_zero.mp h.symm).resolve_right hd.ne'
    · rintro rfl
      rw [Nat.zero_mul] at h
      exact (Nat.mul_eq_zero.mp h).resolve_right hd'.ne'
  by_cases hn : n = 0
  · simp [nearest, hn, hzero.mp hn]
  have hn' : n' ≠ 0 := mt hzero.mpr hn
  have hratio : (n : ℚ) / d = (n' : ℚ) / d' := by
    rw [div_eq_div_iff (by positivity) (by positivity)]
    exact_mod_cast h
  simp only [nearest, hn, hn', if_false, log2Ratio_eq (Nat.pos_of_ne_zero hn) hd,
    log2Ratio_eq (Nat.pos_of_ne_zero hn') hd', hratio, Nat.pow_eq]
  have hscale : ∀ a b : ℕ, n * a * (d' * b) = n' * a * (d * b) := by
    intro a b
    calc n * a * (d' * b) = n * d' * (a * b) := by ring
      _ = n' * d * (a * b) := by rw [h]
      _ = n' * a * (d * b) := by ring
  congr 2
  exact roundRatio_congr (by positivity) (by positivity) (hscale _ _)

/-- The number that a finite magnitude denotes. -/
def value (bits : ℕ) : ℚ :=
  significand bits * 2 ^ exponent bits

/-- A significand that the exponent leaves whole is kept as it is. -/
theorem nearest_of_exponent {n d m : ℕ} {q : ℤ} (hn : n ≠ 0) (hd : 0 < d)
    (h : (n : ℚ) / d = m * 2 ^ q) (hq : max (Int.log 2 ((n : ℚ) / d) - 52) (-1074) = q) :
    nearest n d = min ((q + 1074).toNat * 0x10000000000000 + m) infinityBits := by
  have hscaled : n * 2 ^ (-q).toNat = m * (d * 2 ^ q.toNat) := by
    rw [zpow_eq_div two_ne_zero, ← mul_div_assoc,
      div_eq_div_iff (by positivity) (by positivity)] at h
    have hnat : n * 2 ^ (-q).toNat = m * 2 ^ q.toNat * d := by exact_mod_cast h
    rw [hnat, Nat.mul_assoc, Nat.mul_comm (2 ^ q.toNat) d]
  simp only [nearest, hn, if_false, log2Ratio_eq (Nat.pos_of_ne_zero hn) hd, hq, Nat.pow_eq,
    hscaled]
  rw [roundRatio_mul m (by positivity)]

theorem significand_pos {bits : ℕ} (h : 0 < bits) : 0 < significand bits := by
  unfold significand
  split <;> omega

theorem significand_lt (bits : ℕ) : significand bits < 2 ^ 53 := by
  unfold significand
  split <;> omega

theorem le_exponent (bits : ℕ) : -1074 ≤ exponent bits := by
  unfold exponent
  split <;> omega

theorem exponent_le {bits : ℕ} (h : bits < infinityBits) : exponent bits ≤ 971 := by
  unfold exponent
  unfold infinityBits at h
  split <;> omega

/-- Bounds of the binary logarithm give it away. -/
theorem log_eq_of_bounds {b : ℕ} (hb : 1 < b) {r : ℚ} {k : ℤ} (hlow : (b : ℚ) ^ k ≤ r)
    (hhigh : r < (b : ℚ) ^ (k + 1)) : Int.log b r = k := by
  have hb' : (0 : ℚ) < b := by exact_mod_cast Nat.zero_lt_of_lt hb
  have hr : 0 < r := lt_of_lt_of_le (zpow_pos hb' k) hlow
  have h₁ := (Int.zpow_le_iff_le_log hb hr).mp hlow
  have h₂ := (Int.lt_zpow_iff_log_lt hb hr).mp hhigh
  omega

/-- The exponent field of a finite magnitude is the one that rounding chooses. -/
theorem max_log_value {bits : ℕ} (h : 0 < bits) :
    max (Int.log 2 (value bits) - 52) (-1074) = exponent bits := by
  have hpos : (0 : ℚ) < value bits := by
    have := significand_pos h
    unfold value
    positivity
  have hbelow : (significand bits : ℚ) < 2 ^ (53 : ℤ) := by
    exact_mod_cast significand_lt bits
  by_cases hsub : bits < 0x10000000000000
  · have hexponent : exponent bits = -1074 := by rw [exponent, if_pos hsub]
    have hvalue : value bits < ((2 : ℕ) : ℚ) ^ (-1022 : ℤ) := by
      have hsignificand : (significand bits : ℚ) < 2 ^ (52 : ℤ) := by
        have : significand bits < 2 ^ 52 := by
          rw [significand, if_pos hsub]
          exact hsub
        exact_mod_cast this
      calc value bits = significand bits * 2 ^ (-1074 : ℤ) := by rw [value, hexponent]
        _ < 2 ^ (52 : ℤ) * 2 ^ (-1074 : ℤ) := by gcongr
        _ = ((2 : ℕ) : ℚ) ^ (-1022 : ℤ) := by
          rw [← zpow_add₀ two_ne_zero]
          norm_num
    rw [Int.lt_zpow_iff_log_lt one_lt_two hpos] at hvalue
    omega
  · have hsignificand : (2 : ℚ) ^ (52 : ℤ) ≤ significand bits := by
      have : 2 ^ 52 ≤ significand bits := by
        rw [significand, if_neg hsub]
        exact Nat.le_add_right _ _
      exact_mod_cast this
    have hlog : Int.log 2 (value bits) = 52 + exponent bits := by
      apply log_eq_of_bounds one_lt_two
      · rw [Nat.cast_ofNat, zpow_add₀ two_ne_zero, value]
        gcongr
      · rw [Nat.cast_ofNat, show 52 + exponent bits + 1 = 53 + exponent bits by ring,
          zpow_add₀ two_ne_zero, value]
        gcongr
    have := le_exponent bits
    omega

/-- A magnitude is its significand on top of its exponent field. -/
theorem significand_add_exponent (bits : ℕ) :
    (exponent bits + 1074).toNat * 0x10000000000000 + significand bits = bits := by
  unfold exponent significand
  split <;> omega

/-- The ratio that a finite magnitude denotes rounds to that magnitude. -/
theorem nearest_of_value {n d bits : ℕ} (hd : 0 < d) (hbits : bits < infinityBits)
    (h : (n : ℚ) / d = value bits) : nearest n d = bits := by
  by_cases hzero : bits = 0
  · subst hzero
    have hn : (n : ℚ) / d = 0 := by simp [h, value, significand]
    rcases div_eq_zero_iff.mp hn with hn | hn
    · simp [nearest, Nat.cast_eq_zero.mp hn]
    · exact absurd (Nat.cast_eq_zero.mp hn) hd.ne'
  have hpos := Nat.pos_of_ne_zero hzero
  have hn : n ≠ 0 := by
    rintro rfl
    have := significand_pos hpos
    rw [Nat.cast_zero, zero_div, value, eq_comm, mul_eq_zero] at h
    rcases h with h | h
    · exact absurd (Nat.cast_eq_zero.mp h) this.ne'
    · exact absurd h (by positivity)
  rw [nearest_of_exponent hn hd h (by rw [h, max_log_value hpos]), significand_add_exponent]
  exact Nat.min_eq_left hbits.le

/-- Past the largest finite magnitude all is infinite. -/
theorem nearest_le (n d : ℕ) : nearest n d ≤ infinityBits := by
  unfold nearest
  split
  · exact Nat.zero_le _
  · exact Nat.min_le_right _ _

end Double

namespace Decimal

/-- The number that a fraction denotes. -/
def value (d : Decimal) : ℚ :=
  d.coefficient * 10 ^ d.exponent

theorem value_eq_div (d : Decimal) :
    d.value = (d.coefficient * 10 ^ d.exponent.toNat : ℕ) / (10 ^ (-d.exponent).toNat : ℕ) := by
  rw [value, zpow_eq_div (by norm_num), ← mul_div_assoc]
  push_cast
  rfl

theorem value_eq_zero_iff (d : Decimal) : d.value = 0 ↔ d.coefficient = 0 := by
  have : (10 : ℚ) ^ d.exponent ≠ 0 := by positivity
  simp [value, this]

/-- The point stands after the digit of the highest power of ten. -/
theorem point_eq {d : Decimal} (h : d.coefficient ≠ 0) : d.point = Int.log 10 d.value + 1 := by
  have hlength : ∀ k, 0 < k → ((digits d.coefficient).length ≤ k ↔ d.coefficient < 10 ^ k) :=
    fun k hk => Nat.length_toDigits_le_iff (by decide) hk
  have hpos : 0 < (digits d.coefficient).length := Nat.length_toDigits_pos
  have hhigh : d.coefficient < 10 ^ (digits d.coefficient).length :=
    (hlength _ hpos).mp (Nat.le_refl _)
  have hlow : 10 ^ ((digits d.coefficient).length - 1) ≤ d.coefficient := by
    by_cases hone : (digits d.coefficient).length - 1 = 0
    · rw [hone]
      exact Nat.pos_of_ne_zero h
    · rw [← Nat.not_lt, ← hlength _ (Nat.pos_of_ne_zero hone)]
      omega
  have hlog : Int.log 10 d.value = ((digits d.coefficient).length : ℤ) - 1 + d.exponent := by
    apply Double.log_eq_of_bounds (by decide)
    · rw [Nat.cast_ofNat, zpow_add₀ (by norm_num), value]
      gcongr
      rw [show ((digits d.coefficient).length : ℤ) - 1 =
        (((digits d.coefficient).length - 1 : ℕ) : ℤ) by omega, zpow_natCast]
      exact_mod_cast hlow
    · rw [Nat.cast_ofNat, show ((digits d.coefficient).length : ℤ) - 1 + d.exponent + 1 =
        (digits d.coefficient).length + d.exponent by ring, zpow_add₀ (by norm_num), value,
        zpow_natCast]
      gcongr
      exact_mod_cast hhigh
  rw [point, hlog]
  ring

/-- Reading a fraction looks only at the number that it denotes. -/
theorem nearest_congr {a b : Decimal} (h : a.value = b.value) : a.nearest = b.nearest := by
  by_cases ha : a.coefficient = 0
  · have hb : b.coefficient = 0 := by rwa [← value_eq_zero_iff, ← h, value_eq_zero_iff]
    simp [nearest, ha, hb]
  have hb : b.coefficient ≠ 0 := by rwa [Ne, ← value_eq_zero_iff, ← h, value_eq_zero_iff]
  have hpoint : a.point = b.point := by rw [point_eq ha, point_eq hb, h]
  have hratio : Double.nearest (a.coefficient * 10 ^ a.exponent.toNat) (10 ^ (-a.exponent).toNat) =
      Double.nearest (b.coefficient * 10 ^ b.exponent.toNat) (10 ^ (-b.exponent).toNat) := by
    apply Double.nearest_congr (by positivity) (by positivity)
    rw [value_eq_div, value_eq_div, div_eq_div_iff (by positivity) (by positivity)] at h
    exact_mod_cast h
  simp only [nearest, ha, hb, hpoint, Nat.pow_eq, hratio]

/-- The outer tests of reading a fraction let every finite magnitude through. -/
theorem point_bounds {d : Decimal} {bits : ℕ} (hpos : 0 < bits)
    (hbits : bits < Double.infinityBits) (h : d.value = Double.value bits)
    (hd : d.coefficient ≠ 0) : -330 < d.point ∧ d.point ≤ 310 := by
  have hlow : ((10 : ℕ) : ℚ) ^ (-330 : ℤ) ≤ d.value := by
    have hone : (1 : ℚ) ≤ Double.significand bits := by
      exact_mod_cast Double.significand_pos hpos
    have hpow : 2 ^ 1074 ≤ 10 ^ 330 := by decide +kernel
    calc ((10 : ℕ) : ℚ) ^ (-330 : ℤ) ≤ 1 * 2 ^ (-1074 : ℤ) := by
          rw [one_mul]
          exact zpow_neg_le_of_pow (a := 2) (m := 1074) (n := 330) two_pos hpow
      _ ≤ Double.significand bits * 2 ^ Double.exponent bits := by
        gcongr
        · norm_num
        · exact Double.le_exponent bits
      _ = d.value := h.symm
  have hhigh : d.value < ((10 : ℕ) : ℚ) ^ (310 : ℤ) := by
    have hsignificand : (Double.significand bits : ℚ) < 2 ^ (53 : ℤ) := by
      exact_mod_cast Double.significand_lt bits
    have hpow : 2 ^ 1024 ≤ 10 ^ 310 := by decide +kernel
    calc d.value = Double.significand bits * 2 ^ Double.exponent bits := h
      _ < 2 ^ (53 : ℤ) * 2 ^ Double.exponent bits := by gcongr
      _ ≤ 2 ^ (53 : ℤ) * 2 ^ (971 : ℤ) := by
        gcongr
        · norm_num
        · exact Double.exponent_le hbits
      _ = 2 ^ (1024 : ℤ) := by
        rw [← zpow_add₀ two_ne_zero]
        norm_num
      _ ≤ ((10 : ℕ) : ℚ) ^ (310 : ℤ) :=
        zpow_le_zpow_of_pow (a := 2) (m := 1024) (n := 310) hpow
  have hvalue : 0 < d.value := lt_of_lt_of_le (by positivity) hlow
  rw [Int.zpow_le_iff_le_log (by decide) hvalue] at hlow
  rw [Int.lt_zpow_iff_log_lt (by decide) hvalue] at hhigh
  rw [point_eq hd]
  omega

/-- A fraction that denotes a finite magnitude reads as that magnitude. -/
theorem nearest_of_value {d : Decimal} {bits : ℕ} (hbits : bits < Double.infinityBits)
    (h : d.value = Double.value bits) : d.nearest = bits := by
  have hnearest : Double.nearest (d.coefficient * 10 ^ d.exponent.toNat) (10 ^ (-d.exponent).toNat) =
      bits := by
    apply Double.nearest_of_value (by positivity) hbits
    rw [← h, value_eq_div]
  by_cases hzero : d.coefficient = 0
  · rw [hzero, Nat.zero_mul] at hnearest
    simpa [nearest, hzero, Double.nearest] using hnearest
  have hpos : 0 < bits := by
    apply Nat.pos_of_ne_zero
    rintro rfl
    apply hzero
    rw [← value_eq_zero_iff, h]
    simp [Double.value, Double.significand]
  obtain ⟨hlow, hhigh⟩ := point_bounds hpos hbits h hzero
  simp only [nearest, hzero, false_or, not_le.mpr hlow, not_lt.mpr hhigh, if_false, Nat.pow_eq,
    hnearest]

/-- The exact fraction denotes its magnitude. -/
theorem value_exact (bits : ℕ) : (exact bits).value = Double.value bits := by
  simp only [exact]
  split
  · rename_i hexponent
    simp only [value, Double.value, Nat.pow_eq]
    rw [zpow_zero, mul_one]
    push_cast
    rw [← zpow_natCast, Int.toNat_of_nonneg hexponent]
  · rename_i hexponent
    simp only [value, Double.value, Nat.pow_eq]
    push_cast
    rw [← zpow_natCast, Int.toNat_of_nonneg (by omega), mul_assoc, zpow_neg, ← inv_zpow,
      ← mul_zpow]
    norm_num

theorem nearest_exact {bits : ℕ} (h : bits < Double.infinityBits) : (exact bits).nearest = bits :=
  nearest_of_value h (value_exact bits)

/-- The shortest fraction reads back as the magnitude that it was found for. -/
theorem nearest_shortest {bits : ℕ} (h : bits < Double.infinityBits) :
    (shortest bits).nearest = bits := by
  simp only [shortest]
  generalize hfound : List.findSome? _ _ = found
  cases found with
  | none => exact nearest_exact h
  | some d =>
    obtain ⟨cut, -, hcut⟩ := List.exists_of_findSome?_eq_some hfound
    simpa using List.find?_some hcut

theorem nearest_le (d : Decimal) : d.nearest ≤ Double.infinityBits := by
  unfold nearest
  split
  · exact Nat.zero_le _
  split
  · exact Nat.le_refl _
  · exact Double.nearest_le _ _

end Decimal

end LoxCore
