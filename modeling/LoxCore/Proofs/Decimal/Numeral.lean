import LoxCore.Decimal.Layout
import LoxCore.Proofs.Decimal.Nearest
import LoxCore.Proofs.Double.Bits
import Mathlib

/-!
Numerals: what every layout of numbers writes, and the fraction that stands in it. A layout moves the
point and drops zeros, but the number that its numeral denotes is that of the fraction it wrote.
-/
namespace LoxCore

namespace Decimal

theorem digitsValue_eq (digits : List Char) : digitsValue digits = Nat.ofDigitChars 10 digits 0 :=
  rfl

theorem digitsValue_append (xs ys : List Char) :
    digitsValue (xs ++ ys) = 10 ^ ys.length * digitsValue xs + digitsValue ys := by
  simp only [digitsValue_eq, Nat.ofDigitChars_append]
  rw [Nat.ofDigitChars_eq_ofDigitChars_zero]

theorem digitsValue_zeros (k : ℕ) : digitsValue (List.replicate k '0') = 0 := by
  simp [digitsValue_eq]

theorem digitsValue_digits (n : ℕ) : digitsValue (digits n) = n :=
  Nat.ofDigitChars_ten_toDigits

theorem isDigit_of_mem_digits {n : ℕ} {c : Char} (h : c ∈ digits n) : c.isDigit :=
  Nat.isDigit_of_mem_toDigits (by decide) (by decide) h

theorem digitsValue_lt {digits : List Char} (h : ∀ c ∈ digits, c.isDigit) :
    digitsValue digits < 10 ^ digits.length := by
  induction digits with
  | nil => exact Nat.one_pos
  | cons c rest ih =>
    have hrest := ih fun d hd => h d (List.mem_cons_of_mem c hd)
    have hc : c.toNat - '0'.toNat ≤ 9 := by
      have := h c List.mem_cons_self
      simp only [Char.isDigit, Bool.and_eq_true, decide_eq_true_eq] at this
      have hhigh : c.toNat ≤ 57 := this.2
      change c.toNat - 48 ≤ 9
      omega
    have happend := digitsValue_append [c] rest
    have hone : digitsValue [c] = c.toNat - '0'.toNat := by simp [digitsValue]
    rw [List.singleton_append] at happend
    rw [happend, hone, List.length_cons, Nat.pow_succ]
    have := Nat.mul_le_mul_left (10 ^ rest.length) hc
    omega

/-- The first digit of a number is no zero. -/
theorem head?_digits {n : ℕ} (h : 0 < n) : (digits n).head? ≠ some '0' := by
  intro hhead
  obtain ⟨more, hmore⟩ := List.head?_eq_some_iff.mp hhead
  have hvalue : digitsValue more = n := by
    have := digitsValue_digits n
    rw [hmore] at this
    exact this
  have hlt : n < 10 ^ more.length := by
    rw [← hvalue]
    apply digitsValue_lt
    intro c hc
    apply isDigit_of_mem_digits (n := n)
    rw [hmore]
    exact List.mem_cons_of_mem _ hc
  by_cases hnil : more = []
  · subst hnil
    exact h.ne hvalue
  · have hlength : (digits n).length ≤ more.length :=
      (Nat.length_toDigits_le_iff (by decide) (List.length_pos_iff.mpr hnil)).mpr hlt
    rw [hmore, List.length_cons] at hlength
    omega

/-- The digits without the zeros at their end, and those zeros. -/
theorem significant_append_zeros (digits : List Char) :
    ∃ k, NumberLayout.significant digits ++ List.replicate k '0' = digits := by
  have hzeros : digits.reverse.takeWhile (· = '0') =
      List.replicate (digits.reverse.takeWhile (· = '0')).length '0' := by
    apply List.eq_replicate_of_mem
    intro c hc
    simpa using List.mem_takeWhile_imp hc
  refine ⟨(digits.reverse.takeWhile (· = '0')).length, ?_⟩
  calc NumberLayout.significant digits ++ List.replicate _ '0'
      = (digits.reverse.dropWhile (· = '0')).reverse ++
          (digits.reverse.takeWhile (· = '0')).reverse := by
        rw [NumberLayout.significant, hzeros, List.reverse_replicate, List.length_replicate]
    _ = (digits.reverse.takeWhile (· = '0') ++ digits.reverse.dropWhile (· = '0')).reverse :=
        List.reverse_append.symm
    _ = digits := by rw [List.takeWhile_append_dropWhile, List.reverse_reverse]

end Decimal

/-- The parts of a numeral, as every reader of numbers takes them: whole digits that start with no
zero unless a zero is all there is, digits after a point, and a power of ten. -/
structure Numeral where
  whole : List Char
  fraction : Option (List Char)
  power : Option ℤ
  whole_ne_nil : whole ≠ []
  isDigit_whole : ∀ c ∈ whole, c.isDigit
  head?_whole : whole.head? = some '0' → whole = ['0']
  fraction_ne_nil : fraction ≠ some []
  isDigit_fraction : ∀ digits, fraction = some digits → ∀ c ∈ digits, c.isDigit

namespace Numeral

/-- The text of a numeral. -/
def text (n : Numeral) : List Char :=
  n.whole ++ n.fraction.elim [] ('.' :: ·) ++
    n.power.elim [] fun e => 'e' :: NumberLayout.exponentText e

/-- The fraction that a numeral denotes. -/
def decimal (n : Numeral) : Decimal :=
  .ofDigits n.whole (n.fraction.getD []) (n.power.getD 0)

end Numeral

namespace NumberLayout

open Decimal

/-- A numeral written by a layout for a fraction. -/
structure Writes (layout : NumberLayout) (d : Decimal) (n : Numeral) : Prop where
  text : layout.fraction d = n.text
  value : n.decimal.value = d.value
  /-- A layout that shows the point of whole numbers writes no bare integers. -/
  pointed : layout.whole = ['.', '0'] → n.fraction ≠ none ∨ n.power ≠ none
  positional : layout.isPositional (d.point - 1) = true → n.power = none

variable {layout : NumberLayout} {d : Decimal}

/-- A fraction by its digits without the zeros at their end, and the place of its point. -/
structure Shown (d : Decimal) (sig : List Char) : Prop where
  digits : significant (Decimal.digits d.coefficient) = sig
  ne_nil : sig ≠ []
  isDigit : ∀ c ∈ sig, c.isDigit
  head? : sig.head? ≠ some '0'
  value : d.value = digitsValue sig * 10 ^ (d.point - sig.length)

theorem exists_shown (hd : d.coefficient ≠ 0) : ∃ sig, Shown d sig := by
  obtain ⟨k, hk⟩ := significant_append_zeros (digits d.coefficient)
  generalize hsig : significant (digits d.coefficient) = sig at hk
  have hvalue : d.coefficient = 10 ^ k * digitsValue sig := by
    rw [← digitsValue_digits d.coefficient, ← hk, digitsValue_append, digitsValue_zeros,
      List.length_replicate, Nat.add_zero]
  have hne : sig ≠ [] := by
    rintro rfl
    exact hd hvalue
  refine ⟨sig, hsig, hne, ?_, ?_, ?_⟩
  · intro c hc
    apply isDigit_of_mem_digits (n := d.coefficient)
    rw [← hk]
    exact List.mem_append_left _ hc
  · have := head?_digits (Nat.pos_of_ne_zero hd)
    rwa [← hk, List.head?_append_of_ne_nil _ hne] at this
  · have hpoint : d.point - sig.length = k + d.exponent := by
      rw [point, ← hk]
      simp
      ring
    rw [hpoint, zpow_add₀ (by norm_num), Decimal.value, hvalue, zpow_natCast]
    push_cast
    ring

theorem Shown.fraction_eq {sig : List Char} (h : Shown d sig) :
    layout.fraction d = if layout.isPositional (d.point - 1) then layout.positional sig d.point
      else scientific sig (d.point - 1) := by
  obtain ⟨c, more, hc⟩ := List.exists_cons_of_ne_nil h.ne_nil
  rw [fraction, h.digits, hc]

/-- A whole number, with what the layout shows after its digits. -/
theorem writes_whole (whole : List Char) (hwhole : layout.whole = [] ∨ layout.whole = ['.', '0'])
    (hne : whole ≠ []) (hdigits : ∀ c ∈ whole, c.isDigit)
    (hhead : whole.head? = some '0' → whole = ['0'])
    (htext : layout.fraction d = whole ++ layout.whole)
    (hvalue : (digitsValue whole : ℚ) = d.value) :
    ∃ n, layout.Writes d n := by
  rcases hwhole with hlayout | hlayout
  · refine ⟨⟨whole, none, none, hne, hdigits, hhead, by simp, by simp⟩, ?_, ?_, ?_, ?_⟩
    · rw [htext, hlayout]
      simp [Numeral.text]
    · simpa [Numeral.decimal, ofDigits, Decimal.value] using hvalue
    · simp [hlayout]
    · exact fun _ => rfl
  · refine ⟨⟨whole, some ['0'], none, hne, hdigits, hhead, by simp, ?_⟩, ?_, ?_, ?_, ?_⟩
    · rintro digits hzero
      obtain rfl := Option.some.inj hzero
      exact List.all_eq_true.mp rfl
    · rw [htext, hlayout]
      simp [Numeral.text]
    · have hzero : digitsValue ['0'] = 0 := rfl
      rw [← hvalue]
      simp only [Numeral.decimal, ofDigits, Decimal.value, Option.getD_some, Option.getD_none,
        digitsValue_append, hzero, List.length_singleton]
      push_cast
      ring
    · simp
    · exact fun _ => rfl

theorem writes_zero (hwhole : layout.whole = [] ∨ layout.whole = ['.', '0'])
    (hd : d.coefficient = 0) : ∃ n, layout.Writes d n := by
  apply writes_whole ['0'] hwhole (by simp) (List.all_eq_true.mp rfl) (fun _ => rfl)
  · rw [fraction, hd]
    rfl
  · simp [Decimal.value, hd, digitsValue]

/-- Fractions below one have a zero before the point. -/
theorem writes_below {sig : List Char} (h : Shown d sig)
    (hpositional : layout.isPositional (d.point - 1) = true) (hpoint : d.point ≤ 0) :
    ∃ n, layout.Writes d n := by
  refine ⟨⟨['0'], some (List.replicate (-d.point).toNat '0' ++ sig), none, by simp,
    List.all_eq_true.mp rfl, fun _ => rfl, ?_, ?_⟩, ?_, ?_, ?_, ?_⟩
  · simp [h.ne_nil]
  · intro digits hdigits c hc
    obtain rfl := Option.some.inj hdigits
    rcases List.mem_append.mp hc with hc | hc
    · obtain rfl := List.eq_of_mem_replicate hc
      rfl
    · exact h.isDigit c hc
  · rw [h.fraction_eq, if_pos hpositional, positional, if_pos hpoint]
    simp [Numeral.text]
  · have hzero : digitsValue ['0'] = 0 := rfl
    rw [h.value]
    simp only [Numeral.decimal, ofDigits, Decimal.value, Option.getD_some, Option.getD_none,
      digitsValue_append, digitsValue_zeros, hzero, List.length_append, List.length_replicate]
    push_cast
    rw [Int.toNat_of_nonneg (by omega)]
    ring_nf
  · simp
  · exact fun _ => rfl

/-- Whole numbers may need zeros after their digits. -/
theorem writes_above {sig : List Char} (h : Shown d sig)
    (hwhole : layout.whole = [] ∨ layout.whole = ['.', '0'])
    (hpositional : layout.isPositional (d.point - 1) = true) (hpoint : 0 < d.point)
    (hlength : sig.length ≤ d.point.toNat) : ∃ n, layout.Writes d n := by
  apply writes_whole (sig ++ List.replicate (d.point.toNat - sig.length) '0') hwhole
  · simp [h.ne_nil]
  · intro c hc
    rcases List.mem_append.mp hc with hc | hc
    · exact h.isDigit c hc
    · obtain rfl := List.eq_of_mem_replicate hc
      rfl
  · rw [List.head?_append_of_ne_nil _ h.ne_nil]
    exact fun hhead => absurd hhead h.head?
  · rw [h.fraction_eq, if_pos hpositional, positional, if_neg (by omega), if_pos hlength]
  · rw [h.value, digitsValue_append, digitsValue_zeros, List.length_replicate, Nat.add_zero,
      show d.point - sig.length = ((d.point.toNat - sig.length : ℕ) : ℤ) by omega, zpow_natCast]
    push_cast
    ring

/-- Other fractions have their point among their digits. -/
theorem writes_between {sig : List Char} (h : Shown d sig)
    (hpositional : layout.isPositional (d.point - 1) = true) (hpoint : 0 < d.point)
    (hlength : d.point.toNat < sig.length) : ∃ n, layout.Writes d n := by
  have hhead : (sig.take d.point.toNat).head? = sig.head? := by
    rw [List.head?_take, if_neg (by omega)]
  refine ⟨⟨sig.take d.point.toNat, some (sig.drop d.point.toNat), none, ?_, ?_, ?_, ?_, ?_⟩,
    ?_, ?_, ?_, ?_⟩
  · simp [h.ne_nil]
    omega
  · exact fun c hc => h.isDigit c (List.mem_of_mem_take hc)
  · rw [hhead]
    exact fun hzero => absurd hzero h.head?
  · simp
    omega
  · intro digits hdigits c hc
    obtain rfl := Option.some.inj hdigits
    exact h.isDigit c (List.mem_of_mem_drop hc)
  · rw [h.fraction_eq, if_pos hpositional, positional, if_neg (by omega), if_neg (by omega)]
    simp [Numeral.text]
  · rw [h.value]
    simp only [Numeral.decimal, ofDigits, Decimal.value, Option.getD_some, Option.getD_none,
      List.take_append_drop, List.length_drop]
    congr 2
    omega
  · simp
  · exact fun _ => rfl

/-- With an exponent, there is one digit before the point. -/
theorem writes_scientific {sig : List Char} (h : Shown d sig)
    (hpositional : layout.isPositional (d.point - 1) = false) : ∃ n, layout.Writes d n := by
  obtain ⟨c, more, rfl⟩ := List.exists_cons_of_ne_nil h.ne_nil
  have hc : c.isDigit := h.isDigit c List.mem_cons_self
  have hmore : ∀ e ∈ more, e.isDigit := fun e he => h.isDigit e (List.mem_cons_of_mem c he)
  refine ⟨⟨[c], if more = [] then none else some more, some (d.point - 1), by simp,
    by simpa using hc, by simp, ?_, ?_⟩, ?_, ?_, ?_, ?_⟩
  · split <;> simp_all
  · intro digits hdigits
    split at hdigits
    · cases hdigits
    · obtain rfl := Option.some.inj hdigits
      exact hmore
  · rw [h.fraction_eq, hpositional]
    cases more <;> simp [scientific, Numeral.text]
  · have hgetD : (if more = [] then none else some more).getD [] = more := by
      split <;> simp_all
    rw [h.value]
    simp only [Numeral.decimal, ofDigits, Decimal.value, Option.getD_some, hgetD,
      List.singleton_append, List.length_cons]
    congr 2
    push_cast
    ring
  · simp
  · simp [hpositional]

/-- What a layout writes for a fraction is a numeral that denotes the same number. -/
theorem exists_writes (hwhole : layout.whole = [] ∨ layout.whole = ['.', '0']) (d : Decimal) :
    ∃ n, layout.Writes d n := by
  by_cases hd : d.coefficient = 0
  · exact writes_zero hwhole hd
  obtain ⟨sig, h⟩ := exists_shown hd
  cases hpositional : layout.isPositional (d.point - 1) with
  | false => exact writes_scientific h hpositional
  | true =>
    rcases lt_or_ge 0 d.point with hpoint | hpoint
    · rcases lt_or_ge d.point.toNat sig.length with hlength | hlength
      · exact writes_between h hpositional hpoint hlength
      · exact writes_above h hwhole hpositional hpoint hlength
    · exact writes_below h hpositional hpoint

/-- The sign before a number, as characters. -/
def signText (negative : Bool) : List Char :=
  if negative then ['-'] else []

theorem toList_sign (negative : Bool) :
    (if negative then "-" else "").toList = signText negative := by
  cases negative <;> rfl

theorem write_of_not_isNaN {x : Float} (h : x.isNaN = false) : layout.write x =
    if Double.magnitude x = Double.infinityBits then
      (if Double.isNegative x then "-" else "") ++ layout.infinity
    else (if Double.isNegative x then "-" else "") ++
      String.ofList (layout.fraction (Decimal.shortest (Double.magnitude x))) := by
  rw [write, h]
  rfl

/-- What a layout writes for numbers: one word for what is no number, another one for infinity, and
numerals that denote all others. -/
inductive WritesNumber (layout : NumberLayout) : Float → List Char → Prop where
  | nan : WritesNumber layout (Float.ofBits 0x7ff8000000000000) layout.nan.toList
  | infinity (negative : Bool) :
      WritesNumber layout (Double.ofMagnitude negative Double.infinityBits)
        (signText negative ++ layout.infinity.toList)
  | numeral (negative : Bool) {d : Decimal} {n : Numeral} (h : layout.Writes d n) :
      WritesNumber layout (n.decimal.toFloat negative) (signText negative ++ n.text)

variable (layout)

/-- The numeral of a finite number denotes it to the last bit. -/
theorem exists_numeral_write (hwhole : layout.whole = [] ∨ layout.whole = ['.', '0']) {x : Float}
    (hnan : x.isNaN = false) (hfinite : Double.magnitude x ≠ Double.infinityBits) :
    ∃ n, layout.Writes (Decimal.shortest (Double.magnitude x)) n ∧
      n.decimal.toFloat (Double.isNegative x) = x ∧
      (layout.write x).toList = signText (Double.isNegative x) ++ n.text := by
  obtain ⟨n, hn⟩ := exists_writes hwhole (Decimal.shortest (Double.magnitude x))
  have hlt : Double.magnitude x < Double.infinityBits :=
    lt_of_le_of_ne (Double.magnitude_le_of_not_isNaN hnan) hfinite
  refine ⟨n, hn, ?_, ?_⟩
  · rw [Decimal.toFloat, Decimal.nearest_congr hn.value, Decimal.nearest_shortest hlt,
      Double.ofMagnitude_magnitude]
  · rw [write_of_not_isNaN hnan, if_neg hfinite, String.toList_append, toList_sign,
      String.toList_ofList, hn.text]

/-- Every number is written, and its numeral denotes it to the last bit. -/
theorem writesNumber_write (hwhole : layout.whole = [] ∨ layout.whole = ['.', '0']) (x : Float) :
    layout.WritesNumber x (layout.write x).toList := by
  by_cases hnan : x.isNaN = true
  · have htext : layout.write x = layout.nan := by rw [write, if_pos hnan]
    rw [htext, Double.eq_of_isNaN hnan]
    exact .nan
  rw [Bool.not_eq_true] at hnan
  by_cases hinfinite : Double.magnitude x = Double.infinityBits
  · have htext : (layout.write x).toList =
        signText (Double.isNegative x) ++ layout.infinity.toList := by
      rw [write_of_not_isNaN hnan, if_pos hinfinite, String.toList_append, toList_sign]
    have hwrites : layout.WritesNumber _ _ := .infinity (Double.isNegative x)
    rw [← hinfinite, Double.ofMagnitude_magnitude] at hwrites
    rw [htext]
    exact hwrites
  · obtain ⟨n, hn, hvalue, htext⟩ := exists_numeral_write layout hwhole hnan hinfinite
    have hwrites := WritesNumber.numeral (Double.isNegative x) hn
    rw [hvalue] at hwrites
    rw [htext]
    exact hwrites

end NumberLayout

end LoxCore
