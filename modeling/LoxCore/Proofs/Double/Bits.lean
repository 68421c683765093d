import LoxCore.Double
import Mathlib

/-!
A number and its bit pattern determine each other, and only one pattern is no number.
-/
namespace LoxCore.Double

open Float.Model UnpackedFloat

/-- The patterns of binary64 numbers. -/
abbrev Pattern : Type :=
  BitVec Format.binary64.numBits

theorem toNat_unpackExponent (b : Pattern) :
    (unpackExponent b).toNat = b.toNat / 2 ^ 52 % 2 ^ 11 := by
  simp [unpackExponent, Nat.shiftRight_eq_div_pow]

theorem toNat_unpackMantissa (b : Pattern) : (unpackMantissa b).toNat = b.toNat % 2 ^ 52 := by
  simp [unpackMantissa]

theorem toNat_unpackSign (b : Pattern) : (unpackSign b).toNat = b.toNat / 2 ^ 63 % 2 := by
  simp [unpackSign, Nat.shiftRight_eq_div_pow]

theorem toBitVec_ofBitVec (b : BitVec 1) : (Sign.ofBitVec b).toBitVec = b := by
  revert b
  decide

theorem toNat_packComponents (sign : Sign) (exponent : BitVec 11) (mantissa : BitVec 52) :
    (packComponents Format.binary64 sign exponent mantissa).toNat =
      sign.toBitVec.toNat * 2 ^ 63 + exponent.toNat * 2 ^ 52 + mantissa.toNat := by
  have hmantissa := mantissa.isLt
  have hexponent := exponent.isLt
  rw [packComponents, BitVec.toNat_append, BitVec.toNat_append,
    ← Nat.shiftLeft_add_eq_or_of_lt hexponent, ← Nat.shiftLeft_add_eq_or_of_lt hmantissa,
    Nat.shiftLeft_eq, Nat.shiftLeft_eq]
  change (_ * 2 ^ 11 + _) * 2 ^ 52 + _ = _
  omega

/-- A pattern is made of its sign, its exponent field and its significand field. -/
theorem packComponents_unpack (b : Pattern) :
    packComponents Format.binary64 (Sign.ofBitVec (unpackSign b)) (unpackExponent b)
      (unpackMantissa b) = b := by
  apply BitVec.eq_of_toNat_eq
  have hb : b.toNat < 2 ^ 64 := b.isLt
  rw [toNat_packComponents, toBitVec_ofBitVec, toNat_unpackSign, toNat_unpackExponent,
    toNat_unpackMantissa]
  omega

/-- A significand without a leading one has the exponent field zero. -/
theorem pack_subnormal {sign : Sign} {m : ℕ} (hpos : 0 < m) (hm : m < 2 ^ 52) :
    UnpackedFloat.pack Format.binary64 (.finite sign m (-1074) hpos) =
      packComponents Format.binary64 sign 0 (BitVec.ofNat 52 m) := by
  have hlog : m.log2 < 52 := (Nat.log2_lt (Nat.ne_of_gt hpos)).mpr hm
  have hbits : ¬m.log2 + 1 = Format.binary64.mantissaBits := by
    change ¬m.log2 + 1 = 53
    omega
  simp only [UnpackedFloat.pack, hbits, if_false]
  rfl

/-- The leading one of a significand is left out beside an exponent field. -/
theorem pack_normal {sign : Sign} {m e : ℕ} (hm : m < 2 ^ 52) (he : e < 2047)
    (hpos : 0 < 2 ^ 52 + m) :
    UnpackedFloat.pack Format.binary64 (.finite sign (2 ^ 52 + m) ((e : ℤ) - 1075) hpos) =
      packComponents Format.binary64 sign (BitVec.ofNat 11 e) (BitVec.ofNat 52 m) := by
  have hlog : (2 ^ 52 + m).log2 = 52 := by
    have hlow : 52 ≤ (2 ^ 52 + m).log2 := (Nat.le_log2 (Nat.ne_of_gt hpos)).mpr (by omega)
    have hhigh : (2 ^ 52 + m).log2 < 53 := (Nat.log2_lt (Nat.ne_of_gt hpos)).mpr (by omega)
    omega
  have hbiased : ((e : ℤ) - 1075 + Format.binary64.exponentBias +
      Format.binary64.mantissaBitsWithoutImplicit).toNat = e := by
    change ((e : ℤ) - 1075 + (1023 : ℕ) + (52 : ℕ)).toNat = e
    omega
  have hfinite : ¬2 ^ Format.binary64.exponentBits ≤ e + 1 := by
    change ¬2 ^ 11 ≤ e + 1
    omega
  have hmantissa : BitVec.ofNat 52 (2 ^ 52 + m) = BitVec.ofNat 52 m := by
    apply BitVec.eq_of_toNat_eq
    simp
  have hnormal : (2 ^ 52 + m).log2 + 1 = Format.binary64.mantissaBits := by
    rw [hlog]
    rfl
  simp only [UnpackedFloat.pack, hbiased, hfinite, if_false, hnormal, if_true]
  exact congrArg _ hmantissa

/-- The ways in which a pattern is taken apart. -/
inductive Unpacked (b : Pattern) : UnpackedFloat → Prop where
  | infinity (hones : unpackExponent b = -1#11) (hzero : unpackMantissa b = 0#52) :
      Unpacked b (.infinity (.ofBitVec (unpackSign b)))
  | notANumber (hones : unpackExponent b = -1#11) (hnonzero : unpackMantissa b ≠ 0#52) :
      Unpacked b .notANumber
  | zero (hexponent : unpackExponent b = 0#11) (hzero : unpackMantissa b = 0#52) :
      Unpacked b (.zero (.ofBitVec (unpackSign b)))
  | subnormal (hexponent : unpackExponent b = 0#11) (hpos : 0 < (unpackMantissa b).toNat) :
      Unpacked b (.finite (.ofBitVec (unpackSign b)) (unpackMantissa b).toNat (-1074) hpos)
  | normal (hexponent : unpackExponent b ≠ 0#11) (hones : unpackExponent b ≠ -1#11)
      (hpos : 0 < 2 ^ 52 + (unpackMantissa b).toNat) :
      Unpacked b (.finite (.ofBitVec (unpackSign b)) (2 ^ 52 + (unpackMantissa b).toNat)
        ((unpackExponent b).toNat - 1075) hpos)

theorem unpacked_unpack (b : Pattern) : Unpacked b (UnpackedFloat.unpack Format.binary64 b) := by
  by_cases hones : unpackExponent b = -1#11
  · by_cases hzero : unpackMantissa b = 0#52
    · have : UnpackedFloat.unpack Format.binary64 b = .infinity (.ofBitVec (unpackSign b)) := by
        simp [UnpackedFloat.unpack, hones, hzero]
      rw [this]
      exact .infinity hones hzero
    · have : UnpackedFloat.unpack Format.binary64 b = .notANumber := by
        simp [UnpackedFloat.unpack, hones, hzero]
      rw [this]
      exact .notANumber hones hzero
  by_cases hexponent : unpackExponent b = 0#11
  · by_cases hzero : unpackMantissa b = 0#52
    · have : UnpackedFloat.unpack Format.binary64 b = .zero (.ofBitVec (unpackSign b)) := by
        simp [UnpackedFloat.unpack, hexponent, hzero]
      rw [this]
      exact .zero hexponent hzero
    · have hpos : 0 < (unpackMantissa b).toNat := by
        rw [BitVec.toNat_pos, BitVec.pos_iff_ne_zero]
        exact hzero
      have : UnpackedFloat.unpack Format.binary64 b =
          .finite (.ofBitVec (unpackSign b)) (unpackMantissa b).toNat (-1074) hpos := by
        simp [UnpackedFloat.unpack, hexponent, hzero]
        rfl
      rw [this]
      exact .subnormal hexponent hpos
  · have hleading : (1#1 ++ unpackMantissa b).toNat = 2 ^ 52 + (unpackMantissa b).toNat := by
      rw [BitVec.toNat_append, ← Nat.shiftLeft_add_eq_or_of_lt (unpackMantissa b).isLt]
      rfl
    have hpos : 0 < 2 ^ 52 + (unpackMantissa b).toNat := by omega
    have : UnpackedFloat.unpack Format.binary64 b =
        .finite (.ofBitVec (unpackSign b)) (2 ^ 52 + (unpackMantissa b).toNat)
          ((unpackExponent b).toNat - 1075) hpos := by
      have hfinite : ¬unpackExponent b = 2047#11 := hones
      simp [UnpackedFloat.unpack, hfinite, hexponent, hleading]
      rfl
    rw [this]
    exact .normal hexponent hones hpos

/-- Taking a valid pattern apart and putting it together again gives the pattern back. -/
theorem pack_unpack {b : Pattern} (h : Format.binary64.Valid b) :
    UnpackedFloat.pack Format.binary64 (UnpackedFloat.unpack Format.binary64 b) = b := by
  have hself := packComponents_unpack b
  have hmantissa : (unpackMantissa b).toNat < 2 ^ 52 := (unpackMantissa b).isLt
  have hunpacked := unpacked_unpack b
  generalize UnpackedFloat.unpack Format.binary64 b = f at hunpacked ⊢
  cases hunpacked with
  | infinity hones hzero =>
    rw [hones, hzero] at hself
    exact hself
  | notANumber hones hnonzero => exact (h.eq_packedNaN hones hnonzero).symm
  | zero hexponent hzero =>
    rw [hexponent, hzero] at hself
    exact hself
  | subnormal hexponent hpos =>
    rw [pack_subnormal hpos hmantissa, BitVec.ofNat_toNat, BitVec.setWidth_eq]
    rw [hexponent] at hself
    exact hself
  | normal hexponent hones hpos =>
    have hfinite : (unpackExponent b).toNat < 2047 := by
      have hlt : (unpackExponent b).toNat < 2 ^ 11 := (unpackExponent b).isLt
      have hne : (unpackExponent b).toNat ≠ 2047 := fun h => hones (BitVec.eq_of_toNat_eq h)
      omega
    rw [pack_normal hmantissa hfinite hpos]
    simpa using hself

/-- A pattern is valid up to infinity, whatever its sign. -/
theorem valid_of_magnitude {b : Pattern} (h : b.toNat % 2 ^ 63 ≤ infinityBits) :
    Format.binary64.Valid b := by
  refine ⟨fun hones hnonzero => absurd ?_ hnonzero⟩
  have hexponent : (unpackExponent b).toNat = 2047 := by
    rw [hones]
    rfl
  apply BitVec.eq_of_toNat_eq
  rw [toNat_unpackExponent] at hexponent
  rw [toNat_unpackMantissa]
  unfold infinityBits at h
  change _ = 0
  omega

/-- A pattern above infinity is no number, and any other is one. -/
theorem isNaN_iff (b : Pattern) :
    (UnpackedFloat.unpack Format.binary64 b).isNaN = true ↔ infinityBits < b.toNat % 2 ^ 63 := by
  have hunpacked := unpacked_unpack b
  have hexponent := toNat_unpackExponent b
  have hmantissa := toNat_unpackMantissa b
  generalize UnpackedFloat.unpack Format.binary64 b = f at hunpacked ⊢
  unfold infinityBits
  cases hunpacked with
  | infinity hones hzero =>
    rw [hones] at hexponent
    rw [hzero] at hmantissa
    change 2047 = _ at hexponent
    change 0 = _ at hmantissa
    simp only [UnpackedFloat.isNaN, Bool.false_eq_true, false_iff]
    omega
  | notANumber hones hnonzero =>
    have hpos : (unpackMantissa b).toNat ≠ 0 := fun h => hnonzero (BitVec.eq_of_toNat_eq h)
    rw [hones] at hexponent
    change 2047 = _ at hexponent
    simp only [UnpackedFloat.isNaN, true_iff]
    omega
  | zero hexponent' hzero =>
    rw [hexponent'] at hexponent
    change 0 = _ at hexponent
    simp only [UnpackedFloat.isNaN, Bool.false_eq_true, false_iff]
    omega
  | subnormal hexponent' hpos =>
    rw [hexponent'] at hexponent
    change 0 = _ at hexponent
    simp only [UnpackedFloat.isNaN, Bool.false_eq_true, false_iff]
    omega
  | normal hexponent' hones hpos =>
    have hne : (unpackExponent b).toNat ≠ 2047 := fun h => hones (BitVec.eq_of_toNat_eq h)
    simp only [UnpackedFloat.isNaN, Bool.false_eq_true, false_iff]
    omega

/-- A pattern below infinity is a finite number, and no other is one. -/
theorem isFinite_iff (b : Pattern) :
    (UnpackedFloat.unpack Format.binary64 b).isFinite = true ↔ b.toNat % 2 ^ 63 < infinityBits := by
  have hunpacked := unpacked_unpack b
  have hexponent := toNat_unpackExponent b
  have hmantissa := toNat_unpackMantissa b
  generalize UnpackedFloat.unpack Format.binary64 b = f at hunpacked ⊢
  unfold infinityBits
  cases hunpacked with
  | infinity hones | notANumber hones =>
    rw [hones] at hexponent
    change 2047 = _ at hexponent
    simp only [UnpackedFloat.isFinite, Bool.false_eq_true, false_iff]
    omega
  | zero hzero | subnormal hzero =>
    rw [hzero] at hexponent
    change 0 = _ at hexponent
    simp only [UnpackedFloat.isFinite, true_iff]
    omega
  | normal _ hones =>
    have hne : (unpackExponent b).toNat ≠ 2047 := fun h => hones (BitVec.eq_of_toNat_eq h)
    simp only [UnpackedFloat.isFinite, true_iff]
    omega

theorem ofBits_toBits (x : Float) : Float.ofBits x.toBits = x := by
  obtain ⟨bits, hvalid⟩ := x
  have hpack : UnpackedFloat.pack Format.binary64
      (UnpackedFloat.unpack Format.binary64 bits.toBitVec) = bits.toBitVec := pack_unpack hvalid
  simp only [Float.ofBits, Float.toBits, Float.Model.ofBits, Float.Model.pack, hpack]

theorem toBits_ofBits {bits : UInt64} (h : bits.toNat % 2 ^ 63 ≤ infinityBits) :
    (Float.ofBits bits).toBits = bits := by
  have hpack : UnpackedFloat.pack Format.binary64
      (UnpackedFloat.unpack Format.binary64 bits.toBitVec) = bits.toBitVec :=
    pack_unpack (valid_of_magnitude h)
  simp only [Float.ofBits, Float.toBits, Float.Model.ofBits, Float.Model.pack, hpack]

/-- A number is told by its sign and its magnitude. -/
theorem ofMagnitude_magnitude (x : Float) : ofMagnitude (isNegative x) (magnitude x) = x := by
  have hlt : x.toBits.toNat < 2 ^ 64 := x.toBits.toNat_lt
  have hbits : (if isNegative x then 0x8000000000000000 + magnitude x else magnitude x) =
      x.toBits.toNat := by
    unfold isNegative magnitude
    split
    · rename_i h
      have := of_decide_eq_true h
      omega
    · rename_i h
      have := of_decide_eq_false (Bool.not_eq_true _ ▸ h)
      omega
  rw [ofMagnitude, hbits, UInt64.ofNat_toNat, ofBits_toBits]

theorem magnitude_le_of_not_isNaN {x : Float} (h : x.isNaN = false) :
    magnitude x ≤ infinityBits := by
  rw [← Nat.not_lt]
  intro hlt
  have := (isNaN_iff x.toBits.toBitVec).mpr hlt
  change x.isNaN = true at this
  rw [h] at this
  contradiction

theorem magnitude_lt_of_isFinite {x : Float} (h : x.isFinite = true) :
    magnitude x < infinityBits :=
  (isFinite_iff x.toBits.toBitVec).mp h

theorem magnitude_of_not_isFinite {x : Float} (hnan : x.isNaN = false)
    (hinfinite : x.isFinite = false) : magnitude x = infinityBits := by
  have hnot : ¬magnitude x < infinityBits := by
    intro hlt
    have hfinite := (isFinite_iff x.toBits.toBitVec).mpr hlt
    change x.isFinite = true at hfinite
    rw [hinfinite] at hfinite
    contradiction
  exact Nat.le_antisymm (magnitude_le_of_not_isNaN hnan) (Nat.not_lt.mp hnot)

theorem not_isNaN_of_isFinite {x : Float} (h : x.isFinite = true) : x.isNaN = false := by
  rw [← Bool.not_eq_true]
  intro hnan
  have hlt := (isNaN_iff x.toBits.toBitVec).mp hnan
  exact Nat.lt_asymm (magnitude_lt_of_isFinite h) hlt

/-- There is only one pattern that is no number. -/
theorem eq_of_isNaN {x : Float} (h : x.isNaN = true) : x = Float.ofBits 0x7ff8000000000000 := by
  have hunpacked := unpacked_unpack x.toBits.toBitVec
  change (UnpackedFloat.unpack Format.binary64 x.toBits.toBitVec).isNaN = true at h
  generalize UnpackedFloat.unpack Format.binary64 x.toBits.toBitVec = f at h hunpacked
  cases hunpacked with
  | notANumber hones hnonzero =>
    have hpattern : x.toBits.toBitVec = packedNaN Format.binary64 :=
      x.toModel.valid.eq_packedNaN hones hnonzero
    have hbits : x.toBits = 0x7ff8000000000000 := UInt64.toBitVec_inj.mp (hpattern.trans (by decide))
    rw [← hbits, ofBits_toBits]
  | _ => contradiction

section OfMagnitude

variable {bits : ℕ} (h : bits ≤ infinityBits)
include h

theorem toBits_ofMagnitude (negative : Bool) :
    (ofMagnitude negative bits).toBits.toNat =
      if negative then 0x8000000000000000 + bits else bits := by
  have hlt : (if negative then 0x8000000000000000 + bits else bits) < 2 ^ 64 := by
    unfold infinityBits at h
    split <;> omega
  have htoNat : (UInt64.ofNat (if negative then 0x8000000000000000 + bits else bits)).toNat =
      if negative then 0x8000000000000000 + bits else bits := UInt64.toNat_ofNat_of_lt hlt
  rw [ofMagnitude, toBits_ofBits, htoNat]
  rw [htoNat]
  unfold infinityBits at h ⊢
  split <;> omega

theorem magnitude_ofMagnitude (negative : Bool) : magnitude (ofMagnitude negative bits) = bits := by
  rw [magnitude, toBits_ofMagnitude h]
  unfold infinityBits at h
  split <;> omega

theorem isNegative_ofMagnitude (negative : Bool) :
    isNegative (ofMagnitude negative bits) = negative := by
  rw [isNegative, toBits_ofMagnitude h]
  unfold infinityBits at h
  cases negative with
  | false => simpa using by omega
  | true => simp

theorem isNaN_ofMagnitude (negative : Bool) : (ofMagnitude negative bits).isNaN = false := by
  rw [← Bool.not_eq_true]
  intro hnan
  have hlt := (isNaN_iff (ofMagnitude negative bits).toBits.toBitVec).mp hnan
  change infinityBits < magnitude (ofMagnitude negative bits) at hlt
  rw [magnitude_ofMagnitude h] at hlt
  omega

end OfMagnitude

/-! Negation. -/

/-- Patterns that differ in their signs only are opposite numbers. -/
theorem neg_unpack {b b' : Pattern} (hexponent : unpackExponent b' = unpackExponent b)
    (hmantissa : unpackMantissa b' = unpackMantissa b)
    (hsign : Sign.ofBitVec (unpackSign b') = -Sign.ofBitVec (unpackSign b)) :
    (UnpackedFloat.unpack Format.binary64 b).neg = UnpackedFloat.unpack Format.binary64 b' := by
  simp only [UnpackedFloat.unpack, hexponent, hmantissa, hsign]
  repeat' split
  all_goals rfl

theorem neg_unpack_of_toNat {b b' : Pattern} (hb : b.toNat < 2 ^ 63)
    (hb' : b'.toNat = 2 ^ 63 + b.toNat) :
    (UnpackedFloat.unpack Format.binary64 b).neg = UnpackedFloat.unpack Format.binary64 b' := by
  have hexponent : unpackExponent b' = unpackExponent b := by
    apply BitVec.eq_of_toNat_eq
    rw [toNat_unpackExponent, toNat_unpackExponent, hb']
    omega
  have hmantissa : unpackMantissa b' = unpackMantissa b := by
    apply BitVec.eq_of_toNat_eq
    rw [toNat_unpackMantissa, toNat_unpackMantissa, hb']
    omega
  have hpositive : unpackSign b = 0#1 := by
    apply BitVec.eq_of_toNat_eq
    rw [toNat_unpackSign]
    change _ = 0
    omega
  have hnegative : unpackSign b' = 1#1 := by
    apply BitVec.eq_of_toNat_eq
    rw [toNat_unpackSign, hb']
    change _ = 1
    omega
  apply neg_unpack hexponent hmantissa
  rw [hpositive, hnegative]
  rfl

/-- Negation adds the sign bit to a number without it. -/
theorem neg_eq {x y : Float} (hx : x.toBits.toNat < 2 ^ 63)
    (hy : y.toBits.toNat = 2 ^ 63 + x.toBits.toNat) : -x = y := by
  change Float.ofModel (Float.Model.pack
    (UnpackedFloat.unpack Format.binary64 x.toBits.toBitVec).neg) = y
  rw [neg_unpack_of_toNat hx hy]
  exact ofBits_toBits y

theorem neg_ofMagnitude {bits : ℕ} (h : bits ≤ infinityBits) :
    -ofMagnitude false bits = ofMagnitude true bits := by
  have hx := toBits_ofMagnitude h false
  have hy := toBits_ofMagnitude h true
  rw [if_neg Bool.false_ne_true] at hx
  rw [if_pos rfl] at hy
  unfold infinityBits at h
  apply neg_eq <;> omega

end LoxCore.Double
