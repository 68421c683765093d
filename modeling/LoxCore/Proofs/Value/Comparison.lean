import LoxCore.Operation
import LoxCore.Proofs.Double.Order

/-!
Comparing values. Every comparison of two values, of whatever kinds, has a truth value, and the six
operators agree with one another. Only a NaN keeps `<=` from being the opposite of `>`, and `==` from
holding between a value and itself.
-/
namespace LoxCore.Value

/-- The value is a NaN. -/
def IsNaN : Value → Prop
  | number x => x.isNaN = true
  | _ => False

/-- The operators that compare two values. -/
def comparisonOperators : List Token.Kind :=
  [.equalEqual, .bangEqual, .less, .lessEqual, .greater, .greaterEqual]

/-- Between two values the operator of a kind has a truth value, wherever its token stands and whatever
else the token holds. -/
def Compares (kind : Token.Kind) (a b : Value) (holds : Bool) : Prop :=
  ∀ operator : Token, operator.kind = kind → applyBinary operator a b = .ok (.bool holds)

/-- What a comparison of two values comes to, for each operator. -/
def comparison (a b : Value) : Token.Kind → Bool
  | .equalEqual => a.equals b
  | .bangEqual => !a.equals b
  | .less => a.less b
  | .lessEqual => a.lessEq b
  | .greater => b.less a
  | .greaterEqual => b.lessEq a
  | _ => false

theorem applyBinary_comparison {operator : Token} (h : operator.kind ∈ comparisonOperators)
    (a b : Value) : applyBinary operator a b = .ok (.bool (comparison a b operator.kind)) := by
  simp only [comparisonOperators, List.mem_cons, List.not_mem_nil, or_false] at h
  rcases h with h | h | h | h | h | h <;> simp only [applyBinary, comparison, h]

theorem compares_iff {kind : Token.Kind} (h : kind ∈ comparisonOperators) {a b : Value}
    {holds : Bool} : Compares kind a b holds ↔ comparison a b kind = holds := by
  constructor
  · intro hcompares
    have hresult := hcompares ⟨kind, "", .nil, 0⟩ rfl
    rw [applyBinary_comparison h] at hresult
    simpa using hresult
  · rintro rfl operator rfl
    exact applyBinary_comparison h a b

/-! Equality. -/

theorem equals_comm (a b : Value) : a.equals b = b.equals a := by
  cases a <;> cases b <;> try rfl
  case bool.bool => exact BEq.comm
  case string.string => exact BEq.comm
  case number.number x y =>
    rw [equals, equals, Bool.eq_iff_iff, Double.beq_iff, Double.beq_iff]
    unfold Double.Related
    tauto

/-- Values are equal if they are one value, unless both are numbers. -/
theorem equals_iff_eq {a b : Value} (h : ∀ x y, ¬(a = number x ∧ b = number y)) :
    a.equals b = true ↔ a = b := by
  cases a <;> cases b
  case number.number x y => exact absurd ⟨rfl, rfl⟩ (h x y)
  all_goals simp [equals]

theorem equals_of_kindName_ne {a b : Value} (h : a.kindName ≠ b.kindName) : a.equals b = false := by
  cases a <;> cases b <;> first | rfl | exact absurd rfl h

theorem equals_self_iff (a : Value) : a.equals a = true ↔ ¬a.IsNaN := by
  cases a with
  | number x =>
    rw [equals, Double.beq_iff, IsNaN, Bool.not_eq_true]
    unfold Double.Related
    tauto
  | _ => simp [equals, IsNaN]

theorem equals_trans {a b c : Value} (hab : a.equals b = true) (hbc : b.equals c = true) :
    a.equals c = true := by
  cases a <;> cases b <;> try cases hab
  all_goals cases c <;> try cases hbc
  case number.number.number =>
    obtain ⟨hx, -, hxy⟩ := Double.beq_iff.mp hab
    obtain ⟨-, hz, hyz⟩ := Double.beq_iff.mp hbc
    exact Double.beq_iff.mpr ⟨hx, hz, hxy.trans hyz⟩
  case bool.bool.bool => exact beq_iff_eq.mpr ((beq_iff_eq.mp hab).trans (beq_iff_eq.mp hbc))
  case string.string.string => exact beq_iff_eq.mpr ((beq_iff_eq.mp hab).trans (beq_iff_eq.mp hbc))
  case nil.nil.refl.nil.refl => rfl

/-! Order. -/

/-- Values that are not both numbers are ordered by their truth. -/
theorem less_iff_truthy {a b : Value} (h : ∀ x y, ¬(a = number x ∧ b = number y)) :
    (a.less b = true ↔ a.truthy < b.truthy) ∧ (a.lessEq b = true ↔ a.truthy ≤ b.truthy) := by
  have hless : a.less b = (!a.truthy && b.truthy) := by
    cases a <;> cases b <;> first | rfl | exact absurd ⟨rfl, rfl⟩ (h _ _)
  have hlessEq : a.lessEq b = (!a.truthy || b.truthy) := by
    cases a <;> cases b <;> first | rfl | exact absurd ⟨rfl, rfl⟩ (h _ _)
  rw [hless, hlessEq]
  cases a.truthy <;> cases b.truthy <;> decide

/-- Only a NaN is neither at most another value nor greater. -/
theorem lessEq_eq_not_less {a b : Value} (ha : ¬a.IsNaN) (hb : ¬b.IsNaN) :
    a.lessEq b = !b.less a := by
  cases a <;> cases b
  case number.number x y =>
    rw [IsNaN, Bool.not_eq_true] at ha hb
    rw [lessEq, less, Bool.eq_iff_iff]
    simp only [decide_eq_true_iff, Bool.not_eq_true', decide_eq_false_iff_not, Double.le_iff,
      Double.lt_iff, Double.Related, ha, hb, true_and, not_lt]
  all_goals simp only [lessEq, less, Bool.not_and, Bool.not_not, Bool.or_comm]

/-- Every comparison of two values has one truth value, whatever their kinds are. Numbers compare by
their magnitudes with their signs, and with a NaN no comparison but `!=` holds. Of two values that are
not both numbers, equal ones are one value, and the order is that of their truth. So `>` and `>=` are
`<` and `<=` with the sides exchanged, and `!=` is the opposite of `==`. `==` is symmetric and
transitive, never holds between values of different kinds, and holds between a value and itself unless
that is a NaN. Unless one of the values is a NaN, `<=` is the opposite of `>`. -/
theorem comparisons_consistent :
    (∀ kind ∈ comparisonOperators, ∀ a b : Value, ∃! holds, Compares kind a b holds) ∧
    (∀ x y : Float,
      (Compares .equalEqual (number x) (number y) true ↔ Double.Related (· = ·) x y) ∧
      (Compares .less (number x) (number y) true ↔ Double.Related (· < ·) x y) ∧
      (Compares .lessEqual (number x) (number y) true ↔ Double.Related (· ≤ ·) x y)) ∧
    (∀ a b : Value, (∀ x y, ¬(a = number x ∧ b = number y)) →
      (Compares .equalEqual a b true ↔ a = b) ∧
      (Compares .less a b true ↔ a.truthy < b.truthy) ∧
      (Compares .lessEqual a b true ↔ a.truthy ≤ b.truthy)) ∧
    (∀ (a b : Value) (holds : Bool), Compares .greater a b holds ↔ Compares .less b a holds) ∧
    (∀ (a b : Value) (holds : Bool),
      Compares .greaterEqual a b holds ↔ Compares .lessEqual b a holds) ∧
    (∀ (a b : Value) (holds : Bool),
      Compares .equalEqual a b holds ↔ Compares .equalEqual b a holds) ∧
    (∀ a b : Value, a.kindName ≠ b.kindName → Compares .equalEqual a b false) ∧
    (∀ a : Value, Compares .equalEqual a a true ↔ ¬a.IsNaN) ∧
    (∀ a b c : Value, Compares .equalEqual a b true → Compares .equalEqual b c true →
      Compares .equalEqual a c true) ∧
    (∀ (a b : Value) (holds : Bool),
      Compares .bangEqual a b holds ↔ Compares .equalEqual a b !holds) ∧
    ∀ a b : Value, ¬a.IsNaN → ¬b.IsNaN → ∀ holds,
      Compares .lessEqual a b holds ↔ Compares .greater a b !holds := by
  have hequal : Token.Kind.equalEqual ∈ comparisonOperators := by decide
  have hnotEqual : Token.Kind.bangEqual ∈ comparisonOperators := by decide
  have hless : Token.Kind.less ∈ comparisonOperators := by decide
  have hlessEqual : Token.Kind.lessEqual ∈ comparisonOperators := by decide
  have hgreater : Token.Kind.greater ∈ comparisonOperators := by decide
  have hgreaterEqual : Token.Kind.greaterEqual ∈ comparisonOperators := by decide
  refine ⟨?_, ?_, ?_, ?_, ?_, ?_, ?_, ?_, ?_, ?_, ?_⟩
  · intro kind hkind a b
    refine ⟨comparison a b kind, (compares_iff hkind).mpr rfl, fun holds h => ?_⟩
    exact ((compares_iff hkind).mp h).symm
  · intro x y
    rw [compares_iff hequal, compares_iff hless, compares_iff hlessEqual]
    exact ⟨Double.beq_iff, decide_eq_true_iff.trans Double.lt_iff,
      decide_eq_true_iff.trans Double.le_iff⟩
  · intro a b h
    rw [compares_iff hequal, compares_iff hless, compares_iff hlessEqual]
    exact ⟨equals_iff_eq h, less_iff_truthy h⟩
  · intro a b holds
    rw [compares_iff hgreater, compares_iff hless]
    rfl
  · intro a b holds
    rw [compares_iff hgreaterEqual, compares_iff hlessEqual]
    rfl
  · intro a b holds
    rw [compares_iff hequal, compares_iff hequal, comparison, comparison, equals_comm]
  · intro a b h
    exact (compares_iff hequal).mpr (equals_of_kindName_ne h)
  · intro a
    rw [compares_iff hequal]
    exact equals_self_iff a
  · intro a b c hab hbc
    rw [compares_iff hequal] at hab hbc ⊢
    exact equals_trans hab hbc
  · intro a b holds
    rw [compares_iff hnotEqual, compares_iff hequal, comparison, comparison]
    exact Bool.not_eq_eq_eq_not
  · intro a b ha hb holds
    rw [compares_iff hlessEqual, compares_iff hgreater, comparison, comparison,
      lessEq_eq_not_less ha hb]
    exact Bool.not_eq_eq_eq_not

/-- The two zeros are equal, a NaN is not equal to itself, and a string, which is true, is not at most
`nil`. -/
theorem comparisons_consistent_mixed :
    let nan := number (Float.ofBits 0x7ff8000000000000)
    let zero := number (Double.ofMagnitude false 0)
    let negative := number (Double.ofMagnitude true 0)
    let empty := string ""
    nan.IsNaN ∧ ¬zero.IsNaN ∧ ¬empty.IsNaN ∧ ¬nil.IsNaN ∧ empty.kindName ≠ nan.kindName ∧
      (∀ x y, ¬(empty = number x ∧ nil = number y)) ∧
      ¬Compares .equalEqual nan nan true ∧ Compares .equalEqual empty nan false ∧
      Compares .equalEqual zero negative true ∧ Compares .equalEqual negative zero true ∧
      Compares .equalEqual negative negative true ∧
      Compares .less nil empty true ∧ Compares .greater empty nil true ∧
      Compares .lessEqual empty nil false := by
  intro nan zero negative empty
  obtain ⟨-, hnumbers, hothers, hgreater, -, hcomm, hkinds, hself, htrans, -, hopposite⟩ :=
    comparisons_consistent
  have hnan : nan.IsNaN := by
    change Float.isNaN _ = true
    decide +kernel
  have hzero : ¬zero.IsNaN := by
    change ¬Float.isNaN _ = true
    decide +kernel
  have hkind : empty.kindName ≠ nan.kindName := by decide
  have hneither : ∀ x y, ¬(empty = number x ∧ nil = number y) := nofun
  have hneither' : ∀ x y, ¬(nil = number x ∧ empty = number y) := nofun
  have hzeros : Compares .equalEqual zero negative true :=
    (hnumbers _ _).1.mpr ⟨by decide +kernel, by decide +kernel, by decide +kernel⟩
  have hzeros' := (hcomm _ _ _).mp hzeros
  have hless : Compares .less nil empty true := (hothers nil empty hneither').2.1.mpr (by decide)
  have hmore := (hgreater empty nil true).mpr hless
  exact ⟨hnan, hzero, id, id, hkind, hneither, fun h => (hself nan).mp h hnan, hkinds _ _ hkind, hzeros,
    hzeros', htrans _ _ _ hzeros' hzeros, hless, hmore, (hopposite empty nil id id false).mpr hmore⟩

end LoxCore.Value
