import LoxCore.Proofs.Decimal.Numeral
import LoxCore.Proofs.Grammar.Yield
import LoxCore.Proofs.Node.Ungroup
import LoxCore.Proofs.Token.Cut

/-!
Renderings of expressions, read again. A rendering puts each operation in parentheses of its own, so
what it yields is a primary expression: the same tree, but for the groups and the lines.
-/
namespace LoxCore

open Grammar

/-- A numeral without a power of ten is a number of source text, which denotes the same. -/
theorem Numeral.matches_number {n : Numeral} (h : n.power = none) :
    Terminal.number.Matches n.text ∧ Piece.numeral n.text = n.decimal.toFloat false := by
  cases hfraction : n.fraction with
  | none =>
    have htext : n.text = n.whole := by simp [text, hfraction, h]
    have hdecimal : n.decimal = .ofDigits n.whole [] 0 := by simp [decimal, hfraction, h]
    rw [htext, hdecimal]
    exact ⟨⟨n.whole, n.whole_ne_nil, n.isDigit_whole, .inl rfl⟩,
      Piece.numeral_whole n.isDigit_whole⟩
  | some digits =>
    have htext : n.text = n.whole ++ '.' :: digits := by simp [text, hfraction, h]
    have hdecimal : n.decimal = .ofDigits n.whole digits 0 := by simp [decimal, hfraction, h]
    have hne : digits ≠ [] := by
      rintro rfl
      exact n.fraction_ne_nil hfraction
    rw [htext, hdecimal]
    exact ⟨⟨n.whole, n.whole_ne_nil, n.isDigit_whole, .inr ⟨digits, hne,
      n.isDigit_fraction digits hfraction, rfl⟩⟩, Piece.numeral_point n.isDigit_whole digits⟩

namespace Node

/-- Expressions with no assignment, no string and no infinite number in them. -/
def isPlain : Node → Bool
  | literal (.number x) => decide (Double.magnitude x ≠ Double.infinityBits)
  | literal (.string _) => false
  | literal _ | ref _ => true
  | unary _ inner | grouping inner => isPlain inner
  | binary left _ right | logical left _ right => isPlain left && isPlain right
  | _ => false

/-- Plain expressions whose tokens and numbers are such as can be written in source text. -/
inductive Spelled : Node → Prop where
  | nil : Spelled (literal .nil)
  | bool (b : Bool) : Spelled (literal (.bool b))
  | number {x : Float} (hnan : x.isNaN = false) (hsign : Double.isNegative x = false)
      (hfinite : Double.magnitude x ≠ Double.infinityBits) : Spelled (literal (.number x))
  | ref {name : Token} (hkind : name.kind = .identifier) (hname : name.IsCut) : Spelled (ref name)
  | grouping {inner : Node} (h : Spelled inner) : Spelled (grouping inner)
  | unary {operator : Token} {right : Node} (hkind : isUnaryOperator operator.kind = true)
      (hoperator : operator.IsCut) (h : Spelled right) : Spelled (unary operator right)
  | binary {r : Rank} {operator : Token} {left right : Node}
      (hkind : r.joins operator.kind = true) (hoperator : operator.IsCut) (h₁ : Spelled left)
      (h₂ : Spelled right) : Spelled (binary left operator right)

/-- The number of a numeral has no sign, and it is not a NaN. -/
theorem spelled_numeral (text : List Char)
    (hfinite : Double.magnitude (Piece.numeral text) ≠ Double.infinityBits) :
    Spelled (literal (.number (Piece.numeral text))) :=
  .number (Double.isNaN_ofMagnitude (Decimal.nearest_le _) false)
    (Double.isNegative_ofMagnitude (Decimal.nearest_le _) false) hfinite

/-- A plain expression that was read from source text is spelled as in source text. -/
theorem spelled_of_yields {r : Rank} {n : Node} {tokens : List Token} (h : Yields r n tokens)
    (hcut : ∀ t ∈ tokens, t.IsCut) (hplain : n.isPlain = true) : n.Spelled := by
  induction h with
  | @literal t value hvalue =>
    have hliteral := (hcut t (by simp)).literal
    unfold literalValue? at hvalue
    split at hvalue <;> rename_i hkind
    · cases hvalue
      exact .bool false
    · cases hvalue
      exact .bool true
    · cases hvalue
      exact .nil
    · rw [hliteral, hkind] at hvalue
      cases hvalue
      exact spelled_numeral _ (by simpa [isPlain, Piece.literal, Token.Literal.value] using hplain)
    · rw [hliteral, hkind] at hvalue
      cases hvalue
      cases hplain
    · cases hvalue
  | @ref name hkind => exact .ref hkind (hcut name (by simp))
  | @grouping opening closing inner tokens _ _ _ ih =>
    exact .grouping (ih (fun t ht => hcut t (by simp [ht])) hplain)
  | @unary operator right tokens hkind _ ih =>
    exact .unary hkind (hcut operator (by simp)) (ih (fun t ht => hcut t (by simp [ht])) hplain)
  | @binary r operator left right before after hkind _ _ ih₁ ih₂ =>
    obtain ⟨hleft, hright⟩ := Bool.and_eq_true_iff.mp hplain
    exact .binary hkind (hcut operator (by simp)) (ih₁ (fun t ht => hcut t (by simp [ht])) hleft)
      (ih₂ (fun t ht => hcut t (by simp [ht])) hright)
  | assign => cases hplain
  | loosen _ _ ih => exact ih hcut hplain

/-- What reading the text of a tree again gives: a tree `again` that yields some tokens. -/
structure Rereads (n again : Node) (tokens : List Token) : Prop where
  yields : Yields .primary again tokens
  same : again.ungroup.onLine 1 = n.ungroup.onLine 1
  text : again.text = n.text
  head : ∀ rest, ∀ c ∈ (n.text.toList ++ rest).head?, Piece.isBlank c = false
  cuts : ∀ rest, Ends rest → Cuts (n.text.toList ++ rest) tokens rest

/-- A tree that is a single token. -/
theorem Rereads.of_token {t : Token} {n : Node} (hcut : t.IsCut) (hstring : t.kind ≠ .string)
    (htext : n.text = t.lexeme) {again : Node} (hyields : Yields .primary again [t.onLine 1])
    (hsame : again.ungroup.onLine 1 = n.ungroup.onLine 1) (hagain : again.text = n.text) :
    Rereads n again [t.onLine 1] := by
  refine ⟨hyields, hsame, hagain, ?_, ?_⟩
  · rw [htext]
    exact hcut.not_isBlank
  · intro rest hrest
    rw [htext]
    exact .of_isCut hcut hstring hrest

/-- The text of a number is a numeral that denotes it. -/
theorem isCut_number {x : Float} (hnan : x.isNaN = false) (hsign : Double.isNegative x = false)
    (hfinite : Double.magnitude x ≠ Double.infinityBits) :
    Token.IsCut ⟨.number, (Value.number x).text, .number x, 1⟩ := by
  obtain ⟨n, hn, hvalue, htext⟩ :=
    NumberLayout.exists_numeral_write Value.printed (.inl rfl) hnan hfinite
  rw [hsign] at hvalue htext
  obtain ⟨hspelled, hnumeral⟩ := Numeral.matches_number (hn.positional rfl)
  have hcut := Token.IsCut.of_numeral hspelled 1
  rw [hnumeral, hvalue, ← List.nil_append n.text] at hcut
  change Token.IsCut ⟨.number, Value.printed.write x, .number x, 1⟩
  rw [← String.ofList_toList (s := Value.printed.write x), htext]
  exact hcut

/-- A tree whose text stands between parentheses is read again as a group. -/
theorem Rereads.of_parens {n again : Node} {inner : List Char} {r : Rank} {tokens : List Token}
    (htext : n.text.toList = '(' :: (inner ++ [')'])) (hyields : Yields r again tokens)
    (hsame : again.ungroup.onLine 1 = n.ungroup.onLine 1) (hagain : again.text = n.text)
    (hcuts : ∀ rest, Ends rest → Cuts (inner ++ rest) tokens rest) :
    Rereads n (.grouping again)
      (⟨.leftParen, "(", .nil, 1⟩ :: (tokens ++ [⟨.rightParen, ")", .nil, 1⟩])) := by
  refine ⟨.grouping rfl rfl hyields.loosest, hsame, hagain, ?_, ?_⟩
  · rw [htext]
    rintro rest c ⟨⟩
    decide
  · intro rest _
    rw [htext, List.cons_append, List.append_assoc]
    have hinner := hcuts (')' :: rest) (ends_cons (by decide) rest)
    exact (Cuts.opening _).trans (hinner.trans (.closing rest))

theorem Rereads.unary {operator : Token} {right again : Node} {tokens : List Token}
    (h : Rereads right again tokens) (hkind : isUnaryOperator operator.kind = true)
    (hoperator : operator.IsCut) :
    Rereads (.unary operator right) (.grouping (.unary (operator.onLine 1) again))
      (⟨.leftParen, "(", .nil, 1⟩ ::
        ((operator.onLine 1 :: tokens) ++ [⟨.rightParen, ")", .nil, 1⟩])) := by
  have hstring : operator.kind ≠ .string := by
    intro heq
    rw [heq] at hkind
    cases hkind
  have htext : (Node.unary operator right).text.toList =
      '(' :: ((operator.lexeme.toList ++ ' ' :: right.text.toList) ++ [')']) := by
    simp [Node.text]
  have hyields : Yields .unary (.unary (operator.onLine 1) again) (operator.onLine 1 :: tokens) :=
    .unary hkind h.yields.of_primary
  apply Rereads.of_parens htext hyields
  · simp only [ungroup, onLine, h.same]
    rfl
  · simp only [Node.text, h.text]
    rfl
  · intro rest hrest
    rw [List.append_assoc]
    have hright := Cuts.space (h.head rest) (h.cuts rest hrest)
    exact (Cuts.of_isCut hoperator hstring (ends_cons (by decide) _)).trans hright

theorem Rereads.binary {r : Rank} {operator : Token} {left right before after : Node}
    {tokens₁ tokens₂ : List Token} (h₁ : Rereads left before tokens₁)
    (hkind : r.joins operator.kind = true) (hoperator : operator.IsCut)
    (h₂ : Rereads right after tokens₂) :
    Rereads (.binary left operator right) (.grouping (.binary before (operator.onLine 1) after))
      (⟨.leftParen, "(", .nil, 1⟩ ::
        ((tokens₁ ++ operator.onLine 1 :: tokens₂) ++ [⟨.rightParen, ")", .nil, 1⟩])) := by
  have hstring : operator.kind ≠ .string := by
    intro heq
    rw [heq] at hkind
    cases r <;> cases hkind
  have htext : (Node.binary left operator right).text.toList =
      '(' :: ((left.text.toList ++ ' ' :: (operator.lexeme.toList ++ ' ' :: right.text.toList)) ++
        [')']) := by
    simp [Node.text]
  have hyields : Yields r (.binary before (operator.onLine 1) after)
      (tokens₁ ++ operator.onLine 1 :: tokens₂) :=
    .binary hkind h₁.yields.of_primary h₂.yields.of_primary
  apply Rereads.of_parens htext hyields
  · simp only [ungroup, onLine, h₁.same, h₂.same]
    rfl
  · simp only [Node.text, h₁.text, h₂.text]
    rfl
  · intro rest hrest
    have hright := Cuts.space (h₂.head rest) (h₂.cuts rest hrest)
    have hmiddle := (Cuts.of_isCut hoperator hstring (ends_cons (by decide) _)).trans hright
    have hspace := Cuts.space (hoperator.not_isBlank _) hmiddle
    have hleft := (h₁.cuts _ (ends_cons (by decide) _)).trans hspace
    simpa [Token.onLine] using hleft

/-- Every spelled expression is read again from its text. -/
theorem Spelled.exists_rereads {n : Node} (h : n.Spelled) :
    ∃ again tokens, Rereads n again tokens := by
  -- Operands come back as primary expressions, so they go with an operator of any rank.
  induction h with
  | nil =>
    have hcut : Token.IsCut ⟨.nilKeyword, "nil", .nil, 1⟩ := .of_keyword (by decide) rfl 1
    exact ⟨_, _, .of_token hcut nofun rfl (.literal rfl) rfl rfl⟩
  | bool b =>
    cases b with
    | false =>
      have hcut : Token.IsCut ⟨.falseKeyword, "false", .nil, 1⟩ := .of_keyword (by decide) rfl 1
      exact ⟨_, _, .of_token hcut nofun rfl (.literal rfl) rfl rfl⟩
    | true =>
      have hcut : Token.IsCut ⟨.trueKeyword, "true", .nil, 1⟩ := .of_keyword (by decide) rfl 1
      exact ⟨_, _, .of_token hcut nofun rfl (.literal rfl) rfl rfl⟩
  | number hnan hsign hfinite =>
    exact ⟨_, _, .of_token (isCut_number hnan hsign hfinite) nofun rfl (.literal rfl) rfl rfl⟩
  | @ref name hkind hname =>
    have hstring : name.kind ≠ .string := by
      rw [hkind]
      nofun
    exact ⟨.ref (name.onLine 1), _, .of_token hname hstring rfl (.ref hkind) rfl rfl⟩
  | @grouping inner _ ih =>
    obtain ⟨again, tokens, hagain⟩ := ih
    exact ⟨again, tokens, hagain.yields, hagain.same, hagain.text, hagain.head, hagain.cuts⟩
  | @unary operator right hkind hoperator _ ih =>
    obtain ⟨again, tokens, hagain⟩ := ih
    exact ⟨_, _, hagain.unary hkind hoperator⟩
  | @binary r operator left right hkind hoperator _ _ ih₁ ih₂ =>
    obtain ⟨before, tokens₁, hbefore⟩ := ih₁
    obtain ⟨after, tokens₂, hafter⟩ := ih₂
    exact ⟨_, _, hbefore.binary hkind hoperator hafter⟩

end Node

end LoxCore
