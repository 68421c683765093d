import LoxCore.Json.Display
import LoxCore.Proofs.Decimal.Printed
import LoxCore.Proofs.Source.Rendering

/-!
Printed numbers are expressions. The text of a finite number evaluates to the number, to the last bit,
and no two numbers have one text.
-/
namespace LoxCore

open Grammar

/-- A minus before a number. -/
def Token.negation : Token :=
  ⟨.minus, "-", .nil, 1⟩

namespace Node

/-- The expression that a printed number is read as. Only a number without a sign is a literal. -/
def ofNumber (x : Float) : Node :=
  if Double.isNegative x then
    unary .negation (literal (.number (Double.ofMagnitude false (Double.magnitude x))))
  else literal (.number x)

theorem evaluate_ofNumber (detail : ℕ) (store : Store) {x : Float} (hfinite : x.isFinite = true) :
    (evaluate detail (ofNumber x)).run store = ⟨.ok (.number x), store, [], []⟩ := by
  unfold ofNumber
  cases hsign : Double.isNegative x with
  | false => rfl
  | true =>
    have hneg := Double.neg_ofMagnitude (Double.magnitude_lt_of_isFinite hfinite).le
    have hself := Double.ofMagnitude_magnitude x
    rw [hsign, ← hneg] at hself
    conv_rhs => rw [← hself]
    rfl

/-- A number with a sign is printed as a minus and the number without the sign. -/
theorem text_number_of_isNegative {x : Float} (hfinite : x.isFinite = true)
    (hsign : Double.isNegative x = true) : (Value.number x).text =
      "-" ++ (Value.number (Double.ofMagnitude false (Double.magnitude x))).text := by
  have hlt := Double.magnitude_lt_of_isFinite hfinite
  change Value.printed.write x = "-" ++ Value.printed.write _
  rw [NumberLayout.write_of_not_isNaN (Double.not_isNaN_of_isFinite hfinite),
    NumberLayout.write_of_not_isNaN (Double.isNaN_ofMagnitude hlt.le false),
    Double.magnitude_ofMagnitude hlt.le, Double.isNegative_ofMagnitude hlt.le, hsign,
    if_neg hlt.ne, if_neg hlt.ne]
  simp

/-- The text of a number without a sign is cut as one token. -/
theorem cuts_unsigned {x : Float} (hnan : x.isNaN = false) (hsign : Double.isNegative x = false)
    (hfinite : Double.magnitude x ≠ Double.infinityBits) {rest : List Char} (hrest : Ends rest) :
    Cuts ((Value.number x).text.toList ++ rest)
        [⟨.number, (Value.number x).text, .number x, 1⟩] rest ∧
      ∀ r, Yields r (literal (.number x)) [⟨.number, (Value.number x).text, .number x, 1⟩] := by
  have hyields : Yields .primary (literal (.number x))
      [⟨.number, (Value.number x).text, .number x, 1⟩] := .literal rfl
  have hcuts := Cuts.of_isCut (isCut_number hnan hsign hfinite) nofun hrest
  exact ⟨hcuts, fun _ => hyields.of_primary⟩

/-- The text of a finite number is cut into the tokens of its expression. -/
theorem exists_cuts_number {x : Float} (hfinite : x.isFinite = true) {rest : List Char}
    (hrest : Ends rest) : ∃ tokens, Cuts ((Value.number x).text.toList ++ rest) tokens rest ∧
      Yields .assignment (ofNumber x) tokens := by
  have hlt := Double.magnitude_lt_of_isFinite hfinite
  unfold ofNumber
  cases hsign : Double.isNegative x with
  | false =>
    obtain ⟨hcuts, hyields⟩ :=
      cuts_unsigned (Double.not_isNaN_of_isFinite hfinite) hsign hlt.ne hrest
    exact ⟨_, hcuts, hyields .assignment⟩
  | true =>
    obtain ⟨hcuts, hyields⟩ := cuts_unsigned (Double.isNaN_ofMagnitude hlt.le false)
      (Double.isNegative_ofMagnitude hlt.le false)
      ((Double.magnitude_ofMagnitude hlt.le false).trans_ne hlt.ne) hrest
    rw [text_number_of_isNegative hfinite hsign, String.toList_append]
    have hminus := Cuts.of_mark (c := '-') rfl (by decide) rfl rfl
    exact ⟨_, (hminus _).trans hcuts, Yields.loosest (.unary rfl (hyields .unary))⟩

end Node

namespace Source

/-- The text of a finite number is a source of one expression. -/
theorem check_text_number {x : Float} (hfinite : x.isFinite = true) :
    check ((Value.number x).text ++ ";") = .ok [.expression (Node.ofNumber x)] := by
  have hends : Ends [';'] := ends_cons (by decide) []
  obtain ⟨tokens, hcuts, hyields⟩ := Node.exists_cuts_number hfinite hends
  obtain ⟨herrors, hprogram⟩ := programYields_of_cuts hcuts hyields
  have hnesting : ∀ s ∈ [Node.expression (Node.ofNumber x)], s.nesting ≤ nestingLimit := by
    intro s hs
    obtain rfl := List.mem_singleton.mp hs
    unfold Node.ofNumber
    split <;> simp [Node.nesting, nestingLimit]
  have hread := Program.ofTokensTo_of_nesting_le hprogram hnesting
  rw [check_eq_ok_iff]
  simp only [ofText, Program.ofTokens, hread, herrors]

theorem eq_of_text_eq_of_isFinite {x y : Float} (hx : x.isFinite = true) (hy : y.isFinite = true)
    (htext : (Value.number x).text = (Value.number y).text) : x = y := by
  have hsource := check_text_number hx
  rw [htext, check_text_number hy] at hsource
  have hnode : Node.ofNumber y = Node.ofNumber x := by simpa using hsource
  have hvalue := Node.evaluate_ofNumber 0 {} hx
  rw [← hnode, Node.evaluate_ofNumber 0 {} hy] at hvalue
  simpa using hvalue.symm

/-- The texts of infinite numbers. -/
theorem text_infinite {x : Float} (hnan : x.isNaN = false) (hinfinite : x.isFinite = false) :
    (Value.number x).text = (if Double.isNegative x then "-" else "") ++ "inf" ∧
      x = Double.ofMagnitude (Double.isNegative x) Double.infinityBits := by
  have hmagnitude := Double.magnitude_of_not_isFinite hnan hinfinite
  constructor
  · change Value.printed.write x = _
    rw [NumberLayout.write_of_not_isNaN hnan, if_pos hmagnitude]
    rfl
  · rw [← hmagnitude, Double.ofMagnitude_magnitude]

/-- No infinite number has the text of a finite one. -/
theorem isFinite_of_text_eq {x y : Float} (hnan : y.isNaN = false) (hx : x.isFinite = true)
    (htext : (Value.number x).text = (Value.number y).text) : y.isFinite = true := by
  rw [← Bool.not_eq_false]
  intro hinfinite
  obtain ⟨d, hd, -⟩ := NumberLayout.exists_ofText?_write Value.printed (.inl rfl) hx
  change Decimal.ofText? (Value.number x).text.toList = _ at hd
  rw [htext, (text_infinite hnan hinfinite).1] at hd
  cases hsign : Double.isNegative y <;> rw [hsign] at hd <;> cases hd

theorem eq_of_text_eq {x y : Float} (hx : x.isNaN = false) (hy : y.isNaN = false)
    (htext : (Value.number x).text = (Value.number y).text) : x = y := by
  cases hfinite : x.isFinite with
  | true => exact eq_of_text_eq_of_isFinite hfinite (isFinite_of_text_eq hy hfinite htext) htext
  | false =>
    cases hfinite' : y.isFinite with
    | true =>
      have := isFinite_of_text_eq hx hfinite' htext.symm
      rw [hfinite] at this
      cases this
    | false =>
      obtain ⟨htext₁, hx⟩ := text_infinite hx hfinite
      obtain ⟨htext₂, hy⟩ := text_infinite hy hfinite'
      rw [htext₁, htext₂] at htext
      have hsigns : ∀ negative negative' : Bool, (if negative then "-" else "") ++ "inf" =
          (if negative' then "-" else "") ++ "inf" → negative = negative' := by
        decide +kernel
      have hsign := hsigns _ _ htext
      rw [hx, hy, hsign]

/-- Printed numbers read back exactly. The text of a finite number has the plain form and denotes the
sign and the fraction that its representation in messages denotes, which may have an exponent. With a
semicolon behind it, the text is a source of one expression, whose value is the number itself, to the
last bit. So no two numbers have one text, the infinite ones included. -/
theorem printed_numbers_read_back :
    (∀ x : Float, x.isFinite = true →
      PrintedForm (Value.number x).text.toList ∧
      (∃ printed represented : Decimal,
        Decimal.ofText? (Value.number x).text.toList = some (Double.isNegative x, printed) ∧
        Decimal.ofText? (Json.displayedNumbers.write x).toList =
          some (Double.isNegative x, represented) ∧
        printed.value = represented.value) ∧
      ∃ e, check ((Value.number x).text ++ ";") = .ok [.expression e] ∧
        ∀ detail store, (e.evaluate detail).run store = ⟨.ok (.number x), store, [], []⟩) ∧
    ∀ x y : Float, x.isNaN = false → y.isNaN = false →
      (Value.number x).text = (Value.number y).text → x = y := by
  refine ⟨fun x hfinite => ⟨?_, ?_, ?_⟩, fun x y => eq_of_text_eq⟩
  · exact NumberLayout.printedForm_write Value.printed rfl (fun _ => rfl) hfinite
  · obtain ⟨printed, hprinted, hvalue⟩ :=
      NumberLayout.exists_ofText?_write Value.printed (.inl rfl) hfinite
    obtain ⟨represented, hrepresented, hvalue'⟩ :=
      NumberLayout.exists_ofText?_write Json.displayedNumbers (.inr rfl) hfinite
    exact ⟨printed, represented, hprinted, hrepresented, hvalue.trans hvalue'.symm⟩
  · exact ⟨Node.ofNumber x, check_text_number hfinite,
      fun detail store => Node.evaluate_ofNumber detail store hfinite⟩

/-- A number that other layouts write with an exponent, and the negative zero, which is the opposite of
zero. -/
theorem printed_numbers_read_back_small :
    let small := Decimal.toFloat false ⟨25, -6⟩
    let zero := Double.ofMagnitude true 0
    small.isFinite = true ∧ (Value.number small).text = "0.000025" ∧
      Json.displayedNumbers.write small = "2.5e-05" ∧ PrintedForm "0.000025".toList ∧
      zero.isFinite = true ∧ (Value.number zero).text = "-0" ∧
      (∃ e, check ("-0" ++ ";") = .ok [.expression e] ∧
        ∀ detail store, (e.evaluate detail).run store = ⟨.ok (.number zero), store, [], []⟩) ∧
      -Double.ofMagnitude false 0 = zero := by
  intro small zero
  have hsmall : small.isFinite = true := by
    decide +kernel
  have hsmallText : (Value.number small).text = "0.000025" := by
    decide +kernel
  have hrepresented : Json.displayedNumbers.write small = "2.5e-05" := by
    decide +kernel
  have hzero : zero.isFinite = true := by
    decide +kernel
  have hzeroText : (Value.number zero).text = "-0" := by
    decide +kernel
  have hopposite : (Value.number (-Double.ofMagnitude false 0)).text = (Value.number zero).text := by
    decide +kernel
  have hnan : zero.isNaN = false := by
    decide +kernel
  have hnan' : (-Double.ofMagnitude false 0).isNaN = false := by
    decide +kernel
  have hsame := printed_numbers_read_back.2 _ _ hnan' hnan hopposite
  have hform := (printed_numbers_read_back.1 small hsmall).1
  have hread := (printed_numbers_read_back.1 zero hzero).2.2
  rw [hsmallText] at hform
  rw [hzeroText] at hread
  exact ⟨hsmall, hsmallText, hrepresented, hform, hzero, hzeroText, hread, hsame⟩

end Source

end LoxCore
