import LoxCore.Json.Read
import LoxCore.Proofs.Decimal.Numeral
import LoxCore.Proofs.Double.Bits

/-!
Strings and numbers survive being written as JSON and read again: every string, every integer within
the limit of digits, and every number, infinite or not a number at all.
-/
namespace LoxCore.Json

/-! Strings. -/

theorem hexValues?_control : ∀ n < 32,
    hexValues? ['0', '0', hexDigit (n / 16), hexDigit (n % 16)] = some n := by
  decide

/-- One more unit before what was read. -/
def consUnit (unit : Nat) : List Nat × List Char → List Nat × List Char
  | (more, after) => (unit :: more, after)

/-- A character that is written as it is reads as itself. -/
theorem units_plain {c : Char} (hquote : c ≠ '"') (hslash : c ≠ '\\') (hcontrol : ¬c.toNat < 32)
    (rest : List Char) : units (c :: rest) = (units rest).map (consUnit c.toNat) := by
  rw [units]
  · rw [if_neg hcontrol]
    cases units rest <;> rfl
  · exact hquote
  · rintro a b d e tail rfl
    contradiction
  · rintro e tail rfl
    contradiction

theorem units_letter {letter c : Char} (hletter : letter ≠ 'u') (h : unescaped? letter = some c)
    (rest : List Char) :
    units ('\\' :: letter :: rest) = (units rest).map (consUnit c.toNat) := by
  rw [units]
  · rw [h]
    cases units rest <;> rfl
  · rintro a b d e tail rfl
    contradiction

/-- A character is escaped by a letter, escaped by its number, or written as it is. -/
theorem escaped_cases (c : Char) :
    (∃ letter, letter ≠ 'u' ∧ unescaped? letter = some c ∧ escaped c = ['\\', letter]) ∨
      (c.toNat < 32 ∧ escaped c =
        ['\\', 'u', '0', '0', hexDigit (c.toNat / 16), hexDigit (c.toNat % 16)]) ∨
      (c ≠ '"' ∧ c ≠ '\\' ∧ ¬c.toNat < 32 ∧ escaped c = [c]) := by
  unfold escaped
  repeat' split
  all_goals try subst c
  all_goals first
    | exact .inl ⟨_, by decide, rfl, rfl⟩
    | exact .inr (.inl ⟨‹_›, rfl⟩)
    | exact .inr (.inr ⟨‹_›, ‹_›, ‹_›, rfl⟩)

/-- An escaped character reads as one unit. -/
theorem units_escaped (c : Char) (rest : List Char) :
    units (escaped c ++ rest) = (units rest).map (consUnit c.toNat) := by
  rcases escaped_cases c with ⟨letter, hletter, hc, htext⟩ | ⟨hcontrol, htext⟩ |
    ⟨hquote, hslash, hcontrol, htext⟩
  · rw [htext]
    exact units_letter hletter hc rest
  · rw [htext]
    change units ('\\' :: 'u' :: '0' :: '0' :: _ :: _ :: rest) = _
    rw [units, hexValues?_control _ hcontrol]
    cases units rest <;> rfl
  · rw [htext]
    exact units_plain hquote hslash hcontrol rest

theorem units_quoted (cs after : List Char) :
    units (cs.flatMap escaped ++ '"' :: after) = some (cs.map Char.toNat, after) := by
  induction cs with
  | nil => simp [units]
  | cons c rest ih =>
    rw [List.flatMap_cons, List.append_assoc, units_escaped, ih]
    rfl

theorem not_surrogate (c : Char) : ¬(0xd800 ≤ c.toNat ∧ c.toNat < 0xe000) := by
  have h : c.toNat < 0xd800 ∨ 0xdfff < c.toNat ∧ c.toNat < 0x110000 := c.valid
  omega

/-- No character is a surrogate, so the units of a string join to its characters again. -/
theorem joinUnits_toNat (cs : List Char) : joinUnits (cs.map Char.toNat) = cs := by
  induction cs with
  | nil => simp [joinUnits]
  | cons c rest ih =>
    have hsingle : joinUnits.single c.toNat = c := by
      rw [joinUnits.single, if_neg (not_surrogate c), Char.ofNat_toNat]
    cases rest with
    | nil =>
      rw [List.map_cons, List.map_nil, joinUnits, hsingle]
    | cons d more =>
      have hlow : ¬(0xd800 ≤ c.toNat ∧ c.toNat < 0xdc00 ∧ 0xdc00 ≤ d.toNat ∧ d.toNat < 0xe000) := by
        have := not_surrogate c
        omega
      rw [List.map_cons, List.map_cons, joinUnits, if_neg hlow, hsingle, ← List.map_cons, ih]

theorem readString_quoted (s : String) (after : List Char) :
    readString (s.toList.flatMap escaped ++ '"' :: after) = some (s, after) := by
  rw [readString, units_quoted]
  simp [joinUnits_toNat]

/-! Numbers. -/

/-- The text does not start with a digit. -/
def EndsDigits (rest : List Char) : Prop :=
  ∀ c, rest.head? = some c → c.isDigit = false

/-- The text does not start with anything that a numeral before it could go on with. -/
def EndsNumber (rest : List Char) : Prop :=
  ∀ c, rest.head? = some c → c.isDigit = false ∧ c ≠ '.' ∧ c ≠ 'e' ∧ c ≠ 'E'

theorem EndsNumber.endsDigits {rest : List Char} (h : EndsNumber rest) : EndsDigits rest :=
  fun c hc => (h c hc).1

theorem endsDigits_cons {c : Char} (h : c.isDigit = false) (rest : List Char) :
    EndsDigits (c :: rest) := by
  intro d hd
  obtain rfl := Option.some.inj hd
  exact h

theorem leadingDigits_append {digits rest : List Char} (h : ∀ c ∈ digits, c.isDigit)
    (hrest : EndsDigits rest) : leadingDigits (digits ++ rest) = (digits, rest) := by
  rw [leadingDigits, List.takeWhile_append_of_pos h, List.dropWhile_append_of_pos h]
  cases rest with
  | nil => simp
  | cons c more => simp [hrest c rfl]

theorem readWhole_append (n : Numeral) {rest : List Char} (hrest : EndsDigits rest) :
    readWhole (n.whole ++ rest) = some (n.whole, rest) := by
  obtain ⟨c, more, hwhole⟩ := List.exists_cons_of_ne_nil n.whole_ne_nil
  have hdigits := n.isDigit_whole
  have hhead := n.head?_whole
  rw [hwhole] at hdigits hhead ⊢
  rw [List.cons_append, readWhole]
  by_cases hc : c = '0'
  · rw [if_pos hc]
    subst hc
    obtain rfl := (List.cons.inj (hhead rfl)).2
    rfl
  · rw [if_neg hc, if_pos (hdigits c List.mem_cons_self),
      leadingDigits_append (fun d hd => hdigits d (List.mem_cons_of_mem c hd)) hrest]

/-- The text of a fraction after the whole digits. -/
def fractionText (fraction : Option (List Char)) : List Char :=
  fraction.elim [] ('.' :: ·)

/-- The text of an exponent after the digits. -/
def powerText (power : Option ℤ) : List Char :=
  power.elim [] fun e => 'e' :: NumberLayout.exponentText e

theorem readFraction_append (n : Numeral) {rest : List Char} (hrest : EndsDigits rest)
    (hpoint : rest.head? ≠ some '.') :
    readFraction (fractionText n.fraction ++ rest) = (n.fraction, rest) := by
  cases hfraction : n.fraction with
  | none =>
    change readFraction rest = (none, rest)
    cases rest with
    | nil => rfl
    | cons c more =>
      rw [readFraction]
      intro tail htail
      rw [htail] at hpoint
      exact hpoint rfl
  | some digits =>
    have hne : digits ≠ [] := by
      rintro rfl
      exact n.fraction_ne_nil hfraction
    change readFraction ('.' :: (digits ++ rest)) = _
    rw [readFraction, leadingDigits_append (n.isDigit_fraction digits hfraction) hrest]
    cases digits with
    | nil => contradiction
    | cons d more => rfl

/-- The digits of an exponent. -/
theorem exponentText_eq (e : ℤ) : ∃ digits, digits ≠ [] ∧ (∀ c ∈ digits, c.isDigit) ∧
    Decimal.digitsValue digits = e.natAbs ∧
    NumberLayout.exponentText e = (if e < 0 then '-' else '+') :: digits := by
  refine ⟨_, ?_, ?_, ?_, rfl⟩
  · simp [Decimal.digits]
  · intro c hc
    rcases List.mem_append.mp hc with hc | hc
    · obtain rfl := List.eq_of_mem_replicate hc
      rfl
    · exact Decimal.isDigit_of_mem_digits hc
  · rw [Decimal.digitsValue_append, Decimal.digitsValue_zeros, Decimal.digitsValue_digits]
    omega

theorem readExponent_signed (negative : Bool) {digits rest : List Char} (hne : digits ≠ [])
    (hdigits : ∀ c ∈ digits, c.isDigit) (hrest : EndsDigits rest) :
    readExponent ('e' :: (if negative then '-' else '+') :: (digits ++ rest)) =
      (some (if negative then -(Decimal.digitsValue digits : ℤ) else Decimal.digitsValue digits),
        rest) := by
  have hleading := leadingDigits_append hdigits hrest
  obtain ⟨d, more, rfl⟩ := List.exists_cons_of_ne_nil hne
  rw [List.cons_append] at hleading ⊢
  cases negative with
  | false => simp [readExponent, hleading]
  | true => simp [readExponent, hleading]

theorem readExponent_append (power : Option ℤ) {rest : List Char} (hrest : EndsNumber rest) :
    readExponent (powerText power ++ rest) = (power, rest) := by
  cases power with
  | none =>
    change readExponent rest = (none, rest)
    cases rest with
    | nil => rfl
    | cons c more =>
      obtain ⟨-, -, hlower, hupper⟩ := hrest c rfl
      simp [readExponent, hlower, hupper]
  | some e =>
    obtain ⟨digits, hne, hdigits, hvalue, htext⟩ := exponentText_eq e
    change readExponent ('e' :: (NumberLayout.exponentText e ++ rest)) = _
    have hread := readExponent_signed (decide (e < 0)) hne hdigits hrest.endsDigits
    simp only [decide_eq_true_eq] at hread
    rw [htext, List.cons_append, hread, hvalue]
    congr 2
    split <;> omega

/-- A numeral is read to its end, and into its own parts. -/
theorem read_parts (n : Numeral) {rest : List Char} (hrest : EndsNumber rest) :
    ∃ afterWhole afterFraction, readWhole (n.text ++ rest) = some (n.whole, afterWhole) ∧
      readFraction afterWhole = (n.fraction, afterFraction) ∧
      readExponent afterFraction = (n.power, rest) := by
  have htext : n.text ++ rest =
      n.whole ++ (fractionText n.fraction ++ (powerText n.power ++ rest)) := by
    simp [Numeral.text, fractionText, powerText]
  have hpower : EndsDigits (powerText n.power ++ rest) ∧
      (powerText n.power ++ rest).head? ≠ some '.' := by
    cases n.power with
    | none =>
      refine ⟨hrest.endsDigits, ?_⟩
      intro hhead
      exact (hrest '.' hhead).2.1 rfl
    | some e => exact ⟨endsDigits_cons (by decide) _, by simp [powerText]⟩
  have hfraction : EndsDigits (fractionText n.fraction ++ (powerText n.power ++ rest)) := by
    cases n.fraction with
    | none => exact hpower.1
    | some digits => exact endsDigits_cons (by decide) _
  rw [htext]
  exact ⟨_, _, readWhole_append n hfraction, readFraction_append n hpower.1 hpower.2,
    readExponent_append n.power hrest⟩

theorem readUnsigned_numeral (negative : Bool) (n : Numeral) {rest : List Char}
    (hrest : EndsNumber rest) : readUnsigned negative (n.text ++ rest) =
      (ofParts negative n.whole n.fraction n.power).map fun j => (j, rest) := by
  obtain ⟨afterWhole, afterFraction, hwhole, hfraction, hpower⟩ := read_parts n hrest
  rw [readUnsigned, hwhole]
  simp only [hfraction, hpower]

/-- No word starts like a number without a sign. -/
theorem find?_words_digit {c : Char} (h : c.isDigit) (rest : List Char) :
    (words.find? fun entry => entry.1.isPrefixOf (c :: rest)) = none := by
  have hne : ∀ d : Char, d.isDigit = false → (d == c) = false := by
    intro d hd
    rw [beq_eq_false_iff_ne]
    rintro rfl
    rw [hd] at h
    contradiction
  simp [words, List.isPrefixOf, hne]

theorem find?_words_minus {c : Char} (h : c.isDigit) (rest : List Char) :
    (words.find? fun entry => entry.1.isPrefixOf ('-' :: c :: rest)) = none := by
  have hne : ('I' == c) = false := by
    rw [beq_eq_false_iff_ne]
    rintro rfl
    revert h
    decide
  simp [words, List.isPrefixOf, hne]

theorem readPlain_numeral (negative : Bool) (n : Numeral) {rest : List Char}
    (hrest : EndsNumber rest) :
    readPlain (NumberLayout.signText negative ++ n.text ++ rest) =
      (ofParts negative n.whole n.fraction n.power).map fun j => (j, rest) := by
  rw [← readUnsigned_numeral negative n hrest]
  obtain ⟨c, more, hwhole⟩ := List.exists_cons_of_ne_nil n.whole_ne_nil
  have hc : c.isDigit := n.isDigit_whole c (by simp [hwhole])
  obtain ⟨tail, htail⟩ : ∃ tail, n.text ++ rest = c :: tail := by
    simp [Numeral.text, hwhole]
  cases negative with
  | true =>
    change readPlain ('-' :: (n.text ++ rest)) = readUnsigned true (n.text ++ rest)
    rw [htail, readPlain, find?_words_minus hc]
  | false =>
    change readPlain (n.text ++ rest) = readUnsigned false (n.text ++ rest)
    rw [htail, readPlain, find?_words_digit hc]
    have hminus : c ≠ '-' := by
      rintro rfl
      revert hc
      decide
    intro tail' heq
    exact hminus (List.cons.inj heq).1

/-- The numeral of an integer has nothing but its digits. -/
def integerNumeral (n : ℕ) : Numeral where
  whole := Decimal.digits n
  fraction := none
  power := none
  whole_ne_nil := Nat.toDigits_ne_nil
  isDigit_whole _ h := Decimal.isDigit_of_mem_digits h
  head?_whole h := by
    rcases Nat.eq_zero_or_pos n with rfl | hpos
    · rfl
    · exact absurd h (Decimal.head?_digits hpos)
  fraction_ne_nil := nofun
  isDigit_fraction := nofun

/-- Digits alone are read as an integer, unless there are too many of them. -/
theorem ofParts_digits (n : ℤ) :
    ofParts (decide (n < 0)) (Decimal.digits n.natAbs) none none = .ok (integer n) ∨
      ∃ count, ofParts (decide (n < 0)) (Decimal.digits n.natAbs) none none =
        .error (.tooManyDigits count) := by
  have hvalue : (if decide (n < 0) then -(Decimal.digitsValue (Decimal.digits n.natAbs) : ℤ)
      else Decimal.digitsValue (Decimal.digits n.natAbs)) = n := by
    rw [Decimal.digitsValue_digits]
    simp only [decide_eq_true_eq]
    split <;> omega
  simp only [ofParts]
  rw [hvalue]
  by_cases hlimit : digitLimit < (Decimal.digits n.natAbs).length
  · exact .inr ⟨_, if_pos hlimit⟩
  · exact .inl (if_neg hlimit)

theorem readPlain_integer (n : ℤ) {rest : List Char} (hrest : EndsNumber rest) :
    readPlain (integerText n ++ rest) = .ok (integer n, rest) ∨
      ∃ count, readPlain (integerText n ++ rest) = .error (.tooManyDigits count) := by
  have htext : integerText n =
      NumberLayout.signText (decide (n < 0)) ++ (integerNumeral n.natAbs).text := by
    simp only [integerText, NumberLayout.signText, decide_eq_true_eq]
    split <;> simp [Numeral.text, integerNumeral]
  have hread : readPlain (integerText n ++ rest) =
      (ofParts (decide (n < 0)) (Decimal.digits n.natAbs) none none).map fun j => (j, rest) := by
    rw [htext]
    exact readPlain_numeral _ _ hrest
  rcases ofParts_digits n with hparts | ⟨count, hparts⟩
  · left
    rw [hread, hparts]
    rfl
  · right
    refine ⟨count, ?_⟩
    rw [hread, hparts]
    rfl

theorem readPlain_nan (rest : List Char) : readPlain ('N' :: 'a' :: 'N' :: rest) =
    .ok (number (Float.ofBits 0x7ff8000000000000), rest) := by
  simp [readPlain, words, List.isPrefixOf]

theorem readPlain_infinity (negative : Bool) (rest : List Char) :
    readPlain (NumberLayout.signText negative ++ numbers.infinity.toList ++ rest) =
      .ok (number (Double.ofMagnitude negative Double.infinityBits), rest) := by
  cases negative <;>
    simp [readPlain, words, List.isPrefixOf, numbers, NumberLayout.signText]

/-- A numeral with a point or an exponent is read as a number, not as an integer. -/
theorem ofParts_of_pointed (negative : Bool) {n : Numeral}
    (h : n.fraction ≠ none ∨ n.power ≠ none) :
    ofParts negative n.whole n.fraction n.power = .ok (number (n.decimal.toFloat negative)) := by
  unfold ofParts
  split
  · rename_i hfraction hpower
    rw [hfraction, hpower] at h
    simp at h
  · rfl

/-- Every number is read back as itself, to the last bit. -/
theorem readPlain_number (x : Float) {rest : List Char} (hrest : EndsNumber rest) :
    readPlain ((numbers.write x).toList ++ rest) = .ok (number x, rest) := by
  have hwrites := NumberLayout.writesNumber_write numbers (.inr rfl) x
  generalize (numbers.write x).toList = text at hwrites
  cases hwrites with
  | nan => exact readPlain_nan rest
  | infinity negative => exact readPlain_infinity negative rest
  | numeral negative hn =>
    rw [readPlain_numeral _ _ hrest, ofParts_of_pointed _ (hn.pointed rfl)]
    rfl

end LoxCore.Json
