import LoxCore.Grammar.Program
import LoxCore.Proofs.Grammar.Derivation

/-!
Which tokens a tree stands for. The levels of expressions are ranked, and a tree of one rank yields
some tokens when they write it with the parentheses and signs that the rank asks for.
-/
namespace LoxCore.Grammar

open Token (Kind)

/-- The levels of expressions, from the loosest to the tightest. -/
inductive Rank where
  | assignment | equality | comparison | term | factor | unary | primary
deriving DecidableEq, Repr

namespace Rank

/-- The next tighter level. -/
def tighter : Rank → Rank
  | assignment => equality
  | equality => comparison
  | comparison => term
  | term => factor
  | factor => unary
  | unary | primary => primary

/-- The place of a level from the loosest on. -/
def tightness : Rank → Nat
  | assignment => 0
  | equality => 1
  | comparison => 2
  | term => 3
  | factor => 4
  | unary => 5
  | primary => 6

/-- The operators that join two operands on a level. -/
def joins : Rank → Kind → Bool
  | equality => isEqualityOperator
  | comparison => isComparisonOperator
  | term => isTermOperator
  | factor => isFactorOperator
  | assignment | unary | primary => fun _ => false

/-- Whether a token of some kind can go on after an expression of a level that seems complete. -/
def continues (r : Rank) (kind : Kind) : Bool :=
  match r with
  | assignment =>
    kind = .equal || isEqualityOperator kind || isComparisonOperator kind || isTermOperator kind ||
      isFactorOperator kind
  | equality =>
    isEqualityOperator kind || isComparisonOperator kind || isTermOperator kind ||
      isFactorOperator kind
  | comparison => isComparisonOperator kind || isTermOperator kind || isFactorOperator kind
  | term => isTermOperator kind || isFactorOperator kind
  | factor => isFactorOperator kind
  | unary | primary => false

/-- The rule for the expressions of a level. -/
def rule : Rank → Rule
  | assignment => .assignment
  | equality => .equality
  | comparison => .comparison
  | term => .term
  | factor => .factor
  | unary => .unary
  | primary => .primary

/-- The first of the tokens, if there is any, does not go on with an expression of the level. -/
def Stops (r : Rank) (tokens : List Token) : Prop :=
  ∀ t ∈ tokens.head?, r.continues t.kind = false

theorem tightness_tighter {r : Rank} (h : r ≠ primary) :
    r.tighter.tightness = r.tightness + 1 := by
  cases r <;> first | rfl | contradiction

theorem eq_of_tightness_eq {r r' : Rank} (h : r.tightness = r'.tightness) : r = r' := by
  cases r <;> cases r' <;> first | rfl | cases h

theorem tightness_le_primary (r : Rank) : r.tightness ≤ primary.tightness := by
  cases r <;> decide

theorem continues_of_joins {r : Rank} {kind : Kind} (h : r.joins kind = true) :
    r.continues kind = true := by
  cases r <;> simp_all [continues, joins]

theorem continues_tighter {r : Rank} {kind : Kind} (h : r.tighter.continues kind = true) :
    r.continues kind = true := by
  cases r <;> grind [continues, tighter]

/-- An operator of one level ends every operand on the next. -/
theorem not_continues_of_joins {r : Rank} {kind : Kind} (h : r.joins kind = true) :
    r.tighter.continues kind = false := by
  cases r <;> cases kind <;> first | rfl | cases h

theorem Stops.tighter {r : Rank} {tokens : List Token} (h : r.Stops tokens) :
    r.tighter.Stops tokens := by
  intro t ht
  cases hcontinues : r.tighter.continues t.kind with
  | false => rfl
  | true =>
    have := h t ht
    rw [continues_tighter hcontinues] at this
    cases this

theorem stops_cons {r : Rank} {t : Token} {rest : List Token} :
    r.Stops (t :: rest) ↔ r.continues t.kind = false := by
  simp [Stops]

end Rank

/-- The value of a token that is a literal on its own. -/
def literalValue? (t : Token) : Option Value :=
  match t.kind with
  | .falseKeyword => some (.bool false)
  | .trueKeyword => some (.bool true)
  | .nilKeyword => some .nil
  | .number | .string => some t.literal.value
  | _ => none

/-- A tree of an expression of some rank, and the tokens that write it. A joined operand on the left
has the rank of the whole, one on the right the next tighter rank, so chains group to the left. -/
inductive Yields : Rank → Node → List Token → Prop where
  | literal {t : Token} {value : Value} (h : literalValue? t = some value) :
      Yields .primary (.literal value) [t]
  | ref {name : Token} (h : name.kind = .identifier) : Yields .primary (.ref name) [name]
  | grouping {opening closing : Token} {inner : Node} {tokens : List Token}
      (hopening : opening.kind = .leftParen) (hclosing : closing.kind = .rightParen)
      (h : Yields .assignment inner tokens) :
      Yields .primary (.grouping inner) (opening :: (tokens ++ [closing]))
  | unary {operator : Token} {right : Node} {tokens : List Token}
      (hoperator : isUnaryOperator operator.kind = true) (h : Yields .unary right tokens) :
      Yields .unary (.unary operator right) (operator :: tokens)
  | binary {r : Rank} {operator : Token} {left right : Node} {before after : List Token}
      (hoperator : r.joins operator.kind = true) (h₁ : Yields r left before)
      (h₂ : Yields r.tighter right after) :
      Yields r (.binary left operator right) (before ++ operator :: after)
  | assign {name equals : Token} {value : Node} {tokens : List Token}
      (hname : name.kind = .identifier) (hequals : equals.kind = .equal)
      (h : Yields .assignment value tokens) :
      Yields .assignment (.assign name value) (name :: equals :: tokens)
  | loosen {r : Rank} {n : Node} {tokens : List Token} (hrank : r ≠ .primary)
      (h : Yields r.tighter n tokens) : Yields r n tokens

namespace Yields

variable {r : Rank} {n : Node} {tokens : List Token}

/-- A bare variable is a single identifier, whatever the rank. -/
theorem of_ref {name : Token} (h : Yields r (.ref name) tokens) :
    tokens = [name] ∧ name.kind = .identifier := by
  generalize hnode : Node.ref name = node at h
  induction h with
  | ref hkind =>
    cases hnode
    exact ⟨rfl, hkind⟩
  | loosen _ _ ih => exact ih hnode
  | _ => cases hnode

/-- An expression of a tight rank goes as one of any looser rank. -/
theorem loosen_of_le {r' : Rank} (h : Yields r' n tokens) (hle : r.tightness ≤ r'.tightness) :
    Yields r n tokens := by
  obtain ⟨gap, hgap⟩ := Nat.exists_eq_add_of_le hle
  induction gap generalizing r with
  | zero =>
    obtain rfl := Rank.eq_of_tightness_eq hgap
    exact h
  | succ gap ih =>
    have hrank : r ≠ .primary := by
      rintro rfl
      have := r'.tightness_le_primary
      omega
    have htighter := Rank.tightness_tighter hrank
    exact .loosen hrank (ih (by omega) (by omega))

/-- Every primary goes as an expression of any rank. -/
theorem of_primary (h : Yields .primary n tokens) : Yields r n tokens :=
  h.loosen_of_le r.tightness_le_primary

/-- Every tree goes as an expression of the loosest rank. -/
theorem loosest (h : Yields r n tokens) : Yields .assignment n tokens :=
  h.loosen_of_le (Nat.zero_le _)

end Yields

/-- The kinds of tokens with which an expression can start. -/
def startsExpression : Kind → Bool
  | .falseKeyword | .trueKeyword | .nilKeyword | .number | .string | .identifier | .leftParen
  | .bang | .minus => true
  | _ => false

theorem Yields.exists_head {r : Rank} {n : Node} {tokens : List Token} (h : Yields r n tokens) :
    ∃ t rest, tokens = t :: rest ∧ startsExpression t.kind = true := by
  induction h with
  | @literal t value h =>
    refine ⟨t, [], rfl, ?_⟩
    unfold literalValue? at h
    split at h <;> simp_all [startsExpression]
  | @ref name h => exact ⟨name, [], rfl, by rw [h]; rfl⟩
  | grouping hopening => exact ⟨_, _, rfl, by rw [hopening]; rfl⟩
  | @unary operator right tokens hoperator =>
    refine ⟨operator, tokens, rfl, ?_⟩
    unfold isUnaryOperator at hoperator
    split at hoperator <;> simp_all [startsExpression]
  | binary _ _ _ ih =>
    obtain ⟨t, rest, rfl, hstart⟩ := ih
    exact ⟨t, _, rfl, hstart⟩
  | assign hname => exact ⟨_, _, rfl, by rw [hname]; rfl⟩
  | loosen _ _ ih => exact ih

/-- No primary starts with an operator, so a leading one always belongs to a unary expression. -/
theorem Yields.primary_head {n : Node} {tokens : List Token} (h : Yields .primary n tokens) :
    ∃ t rest, tokens = t :: rest ∧ isUnaryOperator t.kind = false := by
  cases h with
  | @literal t value h =>
    refine ⟨t, [], rfl, ?_⟩
    unfold literalValue? at h
    split at h <;> simp_all [isUnaryOperator]
  | @ref name h => exact ⟨name, [], rfl, by rw [h]; rfl⟩
  | grouping hopening => exact ⟨_, _, rfl, by rw [hopening]; rfl⟩
  | binary hoperator => cases hoperator
  | loosen hrank => exact absurd rfl hrank

/-- A tree of a statement, and the tokens that write it. -/
inductive StatementYields : Node → List Token → Prop where
  | expression {semicolon : Token} {inner : Node} {tokens : List Token}
      (h : Yields .assignment inner tokens) (hsemicolon : semicolon.kind = .semicolon) :
      StatementYields (.expression inner) (tokens ++ [semicolon])
  | print {word semicolon : Token} {inner : Node} {tokens : List Token}
      (hword : word.kind = .printKeyword) (h : Yields .assignment inner tokens)
      (hsemicolon : semicolon.kind = .semicolon) :
      StatementYields (.print inner) (word :: (tokens ++ [semicolon]))
  | declare {word name semicolon : Token} (hword : word.kind = .varKeyword)
      (hname : name.kind = .identifier) (hsemicolon : semicolon.kind = .semicolon) :
      StatementYields (.var name .null) [word, name, semicolon]
  | define {word name equals semicolon : Token} {value : Node} {tokens : List Token}
      (hword : word.kind = .varKeyword) (hname : name.kind = .identifier)
      (hequals : equals.kind = .equal) (h : Yields .assignment value tokens)
      (hsemicolon : semicolon.kind = .semicolon) :
      StatementYields (.var name value) (word :: name :: equals :: (tokens ++ [semicolon]))

/-- The statements of a program, and the tokens that write them one after the other. -/
inductive ProgramYields : List Node → List Token → Prop where
  | nil : ProgramYields [] []
  | cons {s : Node} {rest : List Node} {before after : List Token} (h : StatementYields s before)
      (hrest : ProgramYields rest after) : ProgramYields (s :: rest) (before ++ after)

end LoxCore.Grammar
