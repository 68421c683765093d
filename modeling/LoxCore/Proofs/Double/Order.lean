import LoxCore.Proofs.Double.Bits

/-!
The order of numbers. Numbers compare as the magnitudes of their patterns do, with the sign before
them. So the two zeros are equal, and what is no number compares with nothing.
-/
namespace LoxCore.Double

open Float.Model UnpackedFloat

/-- The magnitude of a number, with its sign. -/
def signedMagnitude (x : Float) : ℤ :=
  if isNegative x then -(magnitude x : ℤ) else magnitude x

/-- The pattern of a number. -/
def pattern (x : Float) : Pattern :=
  x.toBits.toBitVec

/-- A number that is taken apart has a sign, and a pattern of some magnitude. -/
inductive HasMagnitude : UnpackedFloat → Sign → ℕ → Prop where
  | infinity (sign : Sign) : HasMagnitude (.infinity sign) sign infinityBits
  | zero (sign : Sign) : HasMagnitude (.zero sign) sign 0
  /-- Only at the least exponent may the leading bit of the significand be missing. -/
  | finite (sign : Sign) {m e : ℕ} (hpos : 0 < m) (hm : m < 2 ^ 53) (he : e < 2046)
      (hleading : e = 0 ∨ 2 ^ 52 ≤ m) :
      HasMagnitude (.finite sign m ((e : ℤ) - 1074) hpos) sign (e * 2 ^ 52 + m)

theorem hasMagnitude_unpack {b : Pattern} (h : b.toNat % 2 ^ 63 ≤ infinityBits) :
    HasMagnitude (UnpackedFloat.unpack Format.binary64 b) (.ofBitVec (unpackSign b))
      (b.toNat % 2 ^ 63) := by
  have hnan := (isNaN_iff b).not.mpr (Nat.not_lt.mpr h)
  have hexponent := toNat_unpackExponent b
  have hmantissa := toNat_unpackMantissa b
  have hlt : (unpackMantissa b).toNat < 2 ^ 52 := (unpackMantissa b).isLt
  have hunpacked := unpacked_unpack b
  generalize UnpackedFloat.unpack Format.binary64 b = f at hnan hunpacked ⊢
  cases hunpacked with
  | infinity hones hzero =>
    rw [hones] at hexponent
    rw [hzero] at hmantissa
    change 2047 = _ at hexponent
    change 0 = _ at hmantissa
    have hmagnitude : b.toNat % 2 ^ 63 = infinityBits := by
      unfold infinityBits
      omega
    rw [hmagnitude]
    exact .infinity _
  | notANumber => exact absurd rfl hnan
  | zero hzero hzero' =>
    rw [hzero] at hexponent
    rw [hzero'] at hmantissa
    change 0 = _ at hexponent
    change 0 = _ at hmantissa
    have hmagnitude : b.toNat % 2 ^ 63 = 0 := by omega
    rw [hmagnitude]
    exact .zero _
  | subnormal hzero hpos =>
    rw [hzero] at hexponent
    change 0 = _ at hexponent
    have hmagnitude : b.toNat % 2 ^ 63 = 0 * 2 ^ 52 + (unpackMantissa b).toNat := by omega
    rw [hmagnitude]
    exact .finite _ hpos (by omega) (by omega) (.inl rfl)
  | normal hnonzero hones hpos =>
    have hne : (unpackExponent b).toNat ≠ 0 := fun h => hnonzero (BitVec.eq_of_toNat_eq h)
    have hne' : (unpackExponent b).toNat ≠ 2047 := fun h => hones (BitVec.eq_of_toNat_eq h)
    obtain ⟨e, he⟩ := Nat.exists_eq_add_one_of_ne_zero hne
    have hmagnitude : b.toNat % 2 ^ 63 = e * 2 ^ 52 + (2 ^ 52 + (unpackMantissa b).toNat) := by
      omega
    have hshift : ((unpackExponent b).toNat : ℤ) - 1075 = (e : ℤ) - 1074 := by omega
    rw [hmagnitude, hshift]
    exact .finite _ hpos (by omega) (by omega) (.inr (Nat.le_add_right _ _))

/-- Finite numbers of one sign compare by their exponents, and then by their significands. -/
theorem compare_finite {m n d e : ℕ} (hm : m < 2 ^ 53) (hn : n < 2 ^ 53)
    (hd : d = 0 ∨ 2 ^ 52 ≤ m) (he : e = 0 ∨ 2 ^ 52 ≤ n) :
    (compare ((d : ℤ) - 1074) ((e : ℤ) - 1074)).then (compare m n) =
      compare (d * 2 ^ 52 + m) (e * 2 ^ 52 + n) := by
  rcases Nat.lt_trichotomy d e with hlt | rfl | hgt
  · have hexponent : compare ((d : ℤ) - 1074) ((e : ℤ) - 1074) = .lt :=
      compare_lt_iff_lt.mpr (by omega)
    have hmagnitude : compare (d * 2 ^ 52 + m) (e * 2 ^ 52 + n) = .lt :=
      compare_lt_iff_lt.mpr (by omega)
    rw [hexponent, hmagnitude]
    rfl
  · have hexponent : compare ((d : ℤ) - 1074) ((d : ℤ) - 1074) = .eq := compare_eq_iff_eq.mpr rfl
    rw [hexponent, ← cmp_eq_compare (d * 2 ^ 52 + m), cmp_add_left, cmp_eq_compare]
    rfl
  · have hexponent : compare ((d : ℤ) - 1074) ((e : ℤ) - 1074) = .gt :=
      compare_gt_iff_gt.mpr (by omega)
    have hmagnitude : compare (d * 2 ^ 52 + m) (e * 2 ^ 52 + n) = .gt :=
      compare_gt_iff_gt.mpr (by omega)
    rw [hexponent, hmagnitude]
    rfl

theorem compare_apply_positive (k l : ℕ) :
    compare (Sign.positive.apply k) (Sign.positive.apply l) = compare k l := by
  change compare (k : ℤ) (l : ℤ) = _
  rw [← cmp_eq_compare, ← cmp_eq_compare]
  exact Nat.strictMono_cast.cmp_map_eq k l

theorem compare_apply_negative (k l : ℕ) :
    compare (Sign.negative.apply k) (Sign.negative.apply l) = (compare k l).swap := by
  have hanti : StrictAnti fun n : ℕ => -(n : ℤ) := fun _ _ h => neg_lt_neg (Nat.cast_lt.mpr h)
  change compare (-(k : ℤ)) (-(l : ℤ)) = _
  rw [← cmp_eq_compare, ← cmp_eq_compare, cmp_swap]
  exact hanti.cmp_map_eq k l

/-- Numbers taken apart compare as their magnitudes with their signs. -/
theorem HasMagnitude.compare_eq {f g : UnpackedFloat} {s t : Sign} {k l : ℕ}
    (hf : HasMagnitude f s k) (hg : HasMagnitude g t l) :
    f.compare g = some (compare (s.apply k) (t.apply l)) := by
  have htop : infinityBits = 2047 * 2 ^ 52 := rfl
  have hlt {a b : ℤ} (h : a < b) : some Ordering.lt = some (compare a b) :=
    congrArg some (compare_lt_iff_lt.mpr h).symm
  have hgt {a b : ℤ} (h : b < a) : some Ordering.gt = some (compare a b) :=
    congrArg some (compare_gt_iff_gt.mpr h).symm
  have hequal {a b : ℤ} (h : a = b) : some Ordering.eq = some (compare a b) :=
    congrArg some (compare_eq_iff_eq.mpr h).symm
  cases hf with
  | infinity | zero =>
    cases hg <;> cases s <;> cases t <;> first
      | exact hlt (by simp only [Sign.apply]; omega)
      | exact hgt (by simp only [Sign.apply]; omega)
      | exact hequal (by simp [Sign.apply])
  | finite _ hpos hm he hd =>
    cases hg with
    | infinity | zero =>
      cases s <;> cases t <;> first
        | exact hlt (by simp only [Sign.apply]; omega)
        | exact hgt (by simp only [Sign.apply]; omega)
    | finite _ hpos' hn he' hd' =>
      have hfinite := compare_finite hm hn hd hd'
      cases s with
      | positive =>
        cases t with
        | positive => rw [compare_apply_positive, ← hfinite]; rfl
        | negative => exact hgt (by simp only [Sign.apply]; omega)
      | negative =>
        cases t with
        | positive => exact hlt (by simp only [Sign.apply]; omega)
        | negative => rw [compare_apply_negative, ← hfinite]; rfl

/-- The sign of a number is that of its pattern. -/
theorem signedMagnitude_eq (x : Float) : signedMagnitude x =
    (Sign.ofBitVec (unpackSign (pattern x))).apply (magnitude x) := by
  have hsign : (unpackSign (pattern x)).toNat = x.toBits.toNat / 2 ^ 63 % 2 := toNat_unpackSign _
  have hlt : x.toBits.toNat < 2 ^ 64 := x.toBits.toNat_lt
  have hbit : unpackSign (pattern x) = if isNegative x then 1#1 else 0#1 := by
    apply BitVec.eq_of_toNat_eq
    rw [hsign, isNegative]
    by_cases h : 0x8000000000000000 ≤ x.toBits.toNat
    · rw [decide_eq_true h, if_pos rfl]
      change _ = 1
      omega
    · rw [decide_eq_false h, if_neg Bool.false_ne_true]
      change _ = 0
      omega
  rw [hbit, signedMagnitude]
  cases isNegative x <;> rfl

variable {x y : Float}

/-- Numbers compare as their magnitudes with their signs. -/
theorem compare_unpack (hx : x.isNaN = false) (hy : y.isNaN = false) :
    x.toModel.unpack.compare y.toModel.unpack =
      some (compare (signedMagnitude x) (signedMagnitude y)) := by
  have hxmagnitude := hasMagnitude_unpack (magnitude_le_of_not_isNaN hx)
  have hymagnitude := hasMagnitude_unpack (magnitude_le_of_not_isNaN hy)
  rw [signedMagnitude_eq, signedMagnitude_eq]
  exact hxmagnitude.compare_eq hymagnitude

/-- What is no number compares with nothing. -/
theorem compare_unpack_of_isNaN (h : x.isNaN = true ∨ y.isNaN = true) :
    x.toModel.unpack.compare y.toModel.unpack = none := by
  have hnone {f : UnpackedFloat} (hf : f.isNaN = true) : f = .notANumber := by
    cases f <;> first | rfl | cases hf
  rcases h with h | h
  · rw [hnone h]
    rfl
  · rw [hnone h]
    cases x.toModel.unpack <;> rfl

/-- Neither is a NaN, and their magnitudes with their signs are related. -/
def Related (r : ℤ → ℤ → Prop) (x y : Float) : Prop :=
  x.isNaN = false ∧ y.isNaN = false ∧ r (signedMagnitude x) (signedMagnitude y)

theorem compare_unpack_eq_some_iff {order : Ordering} :
    x.toModel.unpack.compare y.toModel.unpack = some order ↔
      Related (fun k l => compare k l = order) x y := by
  unfold Related
  cases hx : x.isNaN with
  | true => simp only [compare_unpack_of_isNaN (.inl hx), reduceCtorEq, false_and]
  | false =>
    cases hy : y.isNaN with
    | true => simp only [compare_unpack_of_isNaN (.inr hy), reduceCtorEq, false_and, and_false]
    | false => simp only [compare_unpack hx hy, Option.some_inj, true_and]

theorem beq_iff : (x == y) = true ↔ Related (· = ·) x y := by
  change (x.toModel.unpack.compare y.toModel.unpack == some .eq) = true ↔ _
  rw [beq_iff_eq, compare_unpack_eq_some_iff]
  simp only [compare_eq_iff_eq]

theorem lt_iff : x < y ↔ Related (· < ·) x y := by
  have hlt : x < y ↔ (x.toModel.unpack.compare y.toModel.unpack == some .lt) = true := by
    change decide (_ = true) = true ↔ _
    exact decide_eq_true_iff
  rw [hlt, beq_iff_eq, compare_unpack_eq_some_iff]
  simp only [compare_lt_iff_lt]

theorem le_iff : x ≤ y ↔ Related (· ≤ ·) x y := by
  have hle : x ≤ y ↔
      (x.toModel.unpack.compare y.toModel.unpack).any Ordering.isLE = true := by
    change decide (_ = true) = true ↔ _
    exact decide_eq_true_iff
  rw [hle, Option.any_eq_true]
  simp only [compare_unpack_eq_some_iff]
  constructor
  · rintro ⟨order, ⟨hx, hy, rfl⟩, hle⟩
    exact ⟨hx, hy, compare_le_iff_le.mp (Ordering.ne_gt_iff_isLE.mpr hle)⟩
  · rintro ⟨hx, hy, hle⟩
    exact ⟨_, ⟨hx, hy, rfl⟩, Ordering.ne_gt_iff_isLE.mp (compare_le_iff_le.mpr hle)⟩

end LoxCore.Double
