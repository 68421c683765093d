import LoxCore.Proofs.Json.Scalar

/-!
Printed numbers: their form, and the fraction that stands in them. It is the one that any other layout
writes for the same number.
-/
namespace LoxCore

open NumberLayout (signText)

namespace Decimal

/-- The fraction that a text denotes, if all of it is a numeral. -/
def ofUnsigned? (text : List Char) : Option Decimal :=
  match Json.readWhole text with
  | none => none
  | some (whole, afterWhole) =>
    let (fraction, afterFraction) := Json.readFraction afterWhole
    match Json.readExponent afterFraction with
    | (power, []) => some (.ofDigits whole (fraction.getD []) (power.getD 0))
    | _ => none

/-- The sign and the fraction that a text denotes. -/
def ofText? : List Char → Option (Bool × Decimal)
  | '-' :: rest => (ofUnsigned? rest).map (true, ·)
  | text => (ofUnsigned? text).map (false, ·)

/-- A numeral denotes the fraction of its own parts. -/
theorem ofUnsigned?_numeral (n : Numeral) : ofUnsigned? n.text = some n.decimal := by
  have hend : Json.EndsNumber [] := nofun
  obtain ⟨afterWhole, afterFraction, hwhole, hfraction, hpower⟩ := Json.read_parts n hend
  rw [List.append_nil] at hwhole
  simp only [ofUnsigned?, hwhole, hfraction, hpower]
  rfl

theorem ofText?_numeral (negative : Bool) (n : Numeral) :
    ofText? (signText negative ++ n.text) = some (negative, n.decimal) := by
  cases negative with
  | true =>
    change (ofUnsigned? n.text).map _ = _
    rw [ofUnsigned?_numeral]
    rfl
  | false =>
    change ofText? n.text = _
    have hminus : ∀ rest, n.text ≠ '-' :: rest := by
      intro rest htext
      have hread := ofUnsigned?_numeral n
      rw [htext] at hread
      cases hread
    rw [ofText?, ofUnsigned?_numeral]
    · rfl
    · exact hminus

end Decimal

/-- The digits of a whole number: no zero comes first, unless it is all there is. -/
inductive WholeForm : List Char → Prop where
  | zero : WholeForm ['0']
  | digits {c : Char} {rest : List Char} (hc : c.isDigit) (hzero : c ≠ '0')
      (hrest : ∀ d ∈ rest, d.isDigit) : WholeForm (c :: rest)

/-- Nothing, or a point and digits of which the last is no zero. -/
inductive FractionForm : List Char → Prop where
  | none : FractionForm []
  | digits {digits : List Char} {last : Char} (hdigits : ∀ d ∈ digits, d.isDigit)
      (hlast : last.isDigit) (hzero : last ≠ '0') : FractionForm ('.' :: (digits ++ [last]))

/-- Texts of the form `-?(0|[1-9][0-9]*)(\.[0-9]*[1-9])?`. -/
def PrintedForm (text : List Char) : Prop :=
  ∃ (negative : Bool) (whole fraction : List Char),
    text = signText negative ++ (whole ++ fraction) ∧ WholeForm whole ∧ FractionForm fraction

theorem Numeral.wholeForm (n : Numeral) : WholeForm n.whole := by
  obtain ⟨c, rest, hwhole⟩ := List.exists_cons_of_ne_nil n.whole_ne_nil
  have hdigits := n.isDigit_whole
  have hhead := n.head?_whole
  rw [hwhole] at hdigits hhead ⊢
  by_cases hc : c = '0'
  · subst hc
    rw [hhead rfl]
    exact .zero
  · exact .digits (hdigits c List.mem_cons_self) hc
      (fun d hd => hdigits d (List.mem_cons_of_mem c hd))

/-- A numeral without a power whose text does not end in a zero after a point is as printed. -/
theorem Numeral.printedForm {n : Numeral} (hpower : n.power = none)
    (htrimmed : '.' ∈ n.text → n.text.getLast? ≠ some '0') (negative : Bool) :
    PrintedForm (signText negative ++ n.text) := by
  refine ⟨negative, n.whole, Json.fractionText n.fraction, ?_, n.wholeForm, ?_⟩
  · simp [text, Json.fractionText, hpower]
  · cases hfraction : n.fraction with
    | none => exact .none
    | some digits =>
      have hne : digits ≠ [] := by
        rintro rfl
        exact n.fraction_ne_nil hfraction
      obtain ⟨front, last, rfl⟩ : ∃ front last, digits = front ++ [last] :=
        ⟨_, _, (List.dropLast_append_getLast hne).symm⟩
      have htext : n.text = n.whole ++ '.' :: (front ++ [last]) := by
        simp [text, hfraction, hpower]
      have hdigits := n.isDigit_fraction _ hfraction
      rw [htext] at htrimmed
      refine .digits (fun d hd => hdigits d (by simp [hd])) (hdigits last (by simp)) ?_
      rintro rfl
      exact htrimmed (by simp) (by simp [List.getLast?_cons, List.getLast?_append])

namespace NumberLayout

variable {layout : NumberLayout} {d : Decimal}

/-- The digits that are written do not end in a zero. -/
theorem getLast?_significant (digits : List Char) : (significant digits).getLast? ≠ some '0' := by
  rw [significant, List.getLast?_reverse]
  intro hhead
  have := List.head?_dropWhile_not (· = '0') digits.reverse
  rw [hhead] at this
  simp at this

/-- Without the zero of whole numbers, and without exponents, no text that has a point ends in a zero. -/
theorem getLast?_fraction (hwhole : layout.whole = [])
    (hpositional : layout.isPositional (d.point - 1) = true) (hpoint : '.' ∈ layout.fraction d) :
    (layout.fraction d).getLast? ≠ some '0' := by
  by_cases hd : d.coefficient = 0
  · have hfraction : layout.fraction d = ['0'] := by
      rw [fraction, hd, hwhole]
      rfl
    rw [hfraction] at hpoint
    simp at hpoint
  obtain ⟨sig, h⟩ := exists_shown hd
  have hlast : sig.getLast? ≠ some '0' := by
    rw [← h.digits]
    exact getLast?_significant _
  rw [h.fraction_eq, if_pos hpositional] at hpoint ⊢
  have hdigit : '.' ∉ sig := fun hmem => absurd (h.isDigit _ hmem) (by decide)
  by_cases hlow : d.point ≤ 0
  · have htext : layout.positional sig d.point =
        '0' :: '.' :: List.replicate (-d.point).toNat '0' ++ sig := by
      simp [positional, hlow]
    rwa [htext, List.getLast?_append_of_ne_nil _ h.ne_nil]
  by_cases hlong : sig.length ≤ d.point.toNat
  · have htext : layout.positional sig d.point =
        sig ++ List.replicate (d.point.toNat - sig.length) '0' := by
      simp [positional, hlow, hlong, hwhole]
    rw [htext] at hpoint
    simp [hdigit] at hpoint
  · have htext : layout.positional sig d.point =
        sig.take d.point.toNat ++ ['.'] ++ sig.drop d.point.toNat := by
      simp [positional, hlow, hlong]
    have hrest : sig.drop d.point.toNat ≠ [] := by
      simpa using hlong
    rw [htext, List.getLast?_append_of_ne_nil _ hrest, List.getLast?_drop, if_neg hlong]
    exact hlast

variable (layout) {x : Float}

/-- Every layout writes the same fraction for a finite number, and its sign. -/
theorem exists_ofText?_write (hwhole : layout.whole = [] ∨ layout.whole = ['.', '0'])
    (hfinite : x.isFinite = true) :
    ∃ d, Decimal.ofText? (layout.write x).toList = some (Double.isNegative x, d) ∧
      d.value = (Decimal.shortest (Double.magnitude x)).value := by
  obtain ⟨n, hn, -, htext⟩ := exists_numeral_write layout hwhole
    (Double.not_isNaN_of_isFinite hfinite) (Double.magnitude_lt_of_isFinite hfinite).ne
  exact ⟨n.decimal, by rw [htext, Decimal.ofText?_numeral], hn.value⟩

/-- A layout without exponents and without the zero of whole numbers writes numbers as printed. -/
theorem printedForm_write (hwhole : layout.whole = []) (hpositional : ∀ e, layout.isPositional e = true)
    (hfinite : x.isFinite = true) : PrintedForm (layout.write x).toList := by
  obtain ⟨n, hn, -, htext⟩ := exists_numeral_write layout (.inl hwhole)
    (Double.not_isNaN_of_isFinite hfinite) (Double.magnitude_lt_of_isFinite hfinite).ne
  rw [htext]
  refine Numeral.printedForm (hn.positional (hpositional _)) ?_ _
  rw [← hn.text]
  exact getLast?_fraction hwhole (hpositional _)

end NumberLayout

end LoxCore
