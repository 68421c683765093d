import LoxCore.Proofs.Grammar.Reading

/-!
Reading and writing back. The trees that are read are those of one canonical shape, which the levels of
the grammar dictate, and they keep of their tokens all but spelling and line of those that only say
what kind of tree it is. So a program is read from exactly the tokens that its trees are written as.
-/
namespace LoxCore

open Token (Kind)
open Grammar

/-! The shape. -/

/-- The level of the operators of a kind. -/
def Grammar.Rank.ofOperator (kind : Kind) : Rank :=
  if isEqualityOperator kind then .equality
  else if isComparisonOperator kind then .comparison
  else if isTermOperator kind then .term
  else if isFactorOperator kind then .factor
  else .assignment

theorem Grammar.Rank.ofOperator_of_joins {r : Rank} {kind : Kind} (h : r.joins kind = true) :
    ofOperator kind = r := by
  cases r <;> cases kind <;> first | rfl | cases h

namespace Node

/-- The tightest level that an expression is of. -/
def rank : Node → Rank
  | literal _ | ref _ | grouping _ => .primary
  | unary _ _ => .unary
  | binary _ operator _ => .ofOperator operator.kind
  | _ => .assignment

/-- Expressions of the shape that the levels of the grammar dictate. The left operand of a binary
operation is of its level or a tighter one and the right operand of a tighter one, and the operand of
a prefix operator is a prefix operation or a primary. An assignment is of the loosest level, so it is
never an operand. -/
inductive Canonical : Node → Prop where
  | literal (value : Value) : Canonical (.literal value)
  | ref {name : Token} (hname : name.kind = .identifier) : Canonical (.ref name)
  | grouping {inner : Node} (h : Canonical inner) : Canonical (.grouping inner)
  | unary {operator : Token} {right : Node} (hoperator : isUnaryOperator operator.kind = true)
      (h : Canonical right) (hright : right.rank = .unary ∨ right.rank = .primary) :
      Canonical (.unary operator right)
  | binary {r : Rank} {left right : Node} {operator : Token}
      (hoperator : r.joins operator.kind = true) (h₁ : Canonical left) (h₂ : Canonical right)
      (hleft : r.tightness ≤ left.rank.tightness) (hright : r.tightness < right.rank.tightness) :
      Canonical (.binary left operator right)
  | assign {name : Token} {value : Node} (hname : name.kind = .identifier) (h : Canonical value) :
      Canonical (.assign name value)

/-- Statements with such expressions. -/
inductive CanonicalStatement : Node → Prop where
  | expression {inner : Node} (h : Canonical inner) : CanonicalStatement (.expression inner)
  | print {inner : Node} (h : Canonical inner) : CanonicalStatement (.print inner)
  | declare {name : Token} (hname : name.kind = .identifier) : CanonicalStatement (.var name .null)
  | define {name : Token} {value : Node} (hname : name.kind = .identifier) (h : Canonical value) :
      CanonicalStatement (.var name value)

end Node

/-! The tokens. -/

namespace Token

/-- Whether trees hold the tokens of a kind: names, and the operators of expressions. -/
def Kind.isHeld (kind : Kind) : Bool :=
  kind = .identifier || isUnaryOperator kind || isEqualityOperator kind ||
    isComparisonOperator kind || isTermOperator kind || isFactorOperator kind

/-- What a tree keeps of a token: all of a name or an operator, the value of a number or a string,
and of any other token the kind. -/
def kept (t : Token) : Token :=
  if t.kind.isHeld then t
  else ⟨t.kind, "", if t.kind = .number ∨ t.kind = .string then t.literal else .nil, 0⟩

/-- A number carries a number, and a string a string. -/
def IsValued (t : Token) : Prop :=
  (t.kind = .number → ∃ x, t.literal = .number x) ∧ (t.kind = .string → ∃ s, t.literal = .string s)

/-- A mark or a reserved word that stands on no line. -/
def ofKind (kind : Kind) : Token :=
  ⟨kind, kind.spelling?.getD "", .nil, 0⟩

/-- A literal that stands on no line. -/
def ofValue : Value → Token
  | .nil => ofKind .nilKeyword
  | .bool false => ofKind .falseKeyword
  | .bool true => ofKind .trueKeyword
  | .number x => ⟨.number, (Value.number x).text, .number x, 0⟩
  | .string s => ⟨.string, "\"" ++ s ++ "\"", .string s, 0⟩

variable {s t : Token}

theorem kind_kept (t : Token) : t.kept.kind = t.kind := by
  unfold kept
  split <;> rfl

theorem kind_eq_of_kept_eq (h : s.kept = t.kept) : s.kind = t.kind := by
  rw [← kind_kept s, h, kind_kept]

theorem eq_of_kept_eq (h : s.kept = t.kept) (ht : t.kind.isHeld = true) : s = t := by
  have hs := kind_eq_of_kept_eq h
  rw [kept, kept, hs, ht] at h
  exact h

/-- Only the kind is kept of a mark or a reserved word that is not held. -/
theorem kept_ofKind {kind : Kind} (h : t.kind = kind)
    (hkind : kind.isHeld = false ∧ kind ≠ .number ∧ kind ≠ .string) :
    (ofKind kind).kept = t.kept := by
  simp [kept, ofKind, h, hkind]

theorem Kind.isHeld_of_joins {r : Rank} {kind : Kind} (h : r.joins kind = true) :
    kind.isHeld = true := by
  cases r <;> cases kind <;> first | rfl | cases h

theorem Kind.isHeld_of_isUnaryOperator {kind : Kind} (h : isUnaryOperator kind = true) :
    kind.isHeld = true := by
  cases kind <;> first | rfl | cases h

/-- A literal is written as a token that has its value. -/
theorem kept_ofValue {value : Value} (h : literalValue? t = some value) (ht : t.IsValued) :
    (ofValue value).kept = t.kept := by
  obtain ⟨kind, lexeme, literal, line⟩ := t
  obtain ⟨hnumber, hstring⟩ := ht
  cases kind <;> cases h <;> try rfl
  · obtain ⟨s, rfl⟩ := hstring rfl
    rfl
  · obtain ⟨x, rfl⟩ := hnumber rfl
    rfl

/-- A token that keeps what the written literal keeps has its value. -/
theorem literalValue_of_kept {value : Value} (h : t.kept = (ofValue value).kept) :
    literalValue? t = some value := by
  have hkind := kind_eq_of_kept_eq h
  obtain ⟨kind, lexeme, literal, line⟩ := t
  obtain rfl : kind = (ofValue value).kind := hkind
  have hliteral := congrArg Token.literal h
  rcases value with _ | (_ | _) | x | s <;> first
    | rfl
    | (obtain rfl := hliteral; rfl)

end Token

namespace Node

/-- The tokens that a tree is written as. Trees that are not read from tokens have none. -/
def flatten : Node → List Token
  | literal value => [.ofValue value]
  | ref name => [name]
  | assign name value => name :: .ofKind .equal :: flatten value
  | unary operator right => operator :: flatten right
  | binary left operator right => flatten left ++ operator :: flatten right
  | grouping inner => .ofKind .leftParen :: (flatten inner ++ [.ofKind .rightParen])
  | expression inner => flatten inner ++ [.ofKind .semicolon]
  | print inner => .ofKind .printKeyword :: (flatten inner ++ [.ofKind .semicolon])
  | var name .null => [.ofKind .varKeyword, name, .ofKind .semicolon]
  | var name initializer =>
    .ofKind .varKeyword :: name :: .ofKind .equal :: (flatten initializer ++ [.ofKind .semicolon])
  | null | list _ | logical .. | block _ | conditional .. => []

/-- A declaration with an initializer is written with it. -/
theorem flatten_var {name : Token} {initializer : Node} (h : initializer ≠ null) :
    (var name initializer).flatten = .ofKind .varKeyword :: name :: .ofKind .equal ::
      (initializer.flatten ++ [.ofKind .semicolon]) := by
  rw [flatten]
  exact h

end Node

/-! What is read has the shape, and is written as it was read. -/

namespace Grammar

variable {r : Rank} {n s : Node} {tokens : List Token}

/-- A tree that yields some tokens as one of a rank has the shape, and is of that rank or a tighter
one. -/
theorem Yields.canonical (h : Yields r n tokens) :
    n.Canonical ∧ r.tightness ≤ n.rank.tightness := by
  induction h with
  | literal => exact ⟨.literal _, Nat.le_refl _⟩
  | ref hname => exact ⟨.ref hname, Nat.le_refl _⟩
  | grouping _ _ _ ih => exact ⟨.grouping ih.1, Nat.le_refl _⟩
  | @unary operator right _ hoperator _ ih =>
    obtain ⟨hright, hrank⟩ := ih
    refine ⟨.unary hoperator hright ?_, Nat.le_refl _⟩
    generalize right.rank = rank at hrank
    cases rank <;> simp_all [Rank.tightness]
  | @binary r operator left right _ _ hoperator _ _ ih₁ ih₂ =>
    have hprimary : r ≠ .primary := by
      rintro rfl
      cases hoperator
    refine ⟨.binary hoperator ih₁.1 ih₂.1 ih₁.2 ?_, ?_⟩
    · have := Rank.tightness_tighter hprimary
      omega
    · exact Nat.le_of_eq (congrArg Rank.tightness (Rank.ofOperator_of_joins hoperator).symm)
  | assign hname _ _ ih => exact ⟨.assign hname ih.1, Nat.le_refl _⟩
  | @loosen r n _ hrank _ ih =>
    have := Rank.tightness_tighter hrank
    exact ⟨ih.1, by omega⟩

theorem Yields.ne_null (h : Yields r n tokens) : n ≠ .null := by
  rintro rfl
  cases h.canonical.1

/-- A tree is written as tokens that keep what those that it yields keep. -/
theorem Yields.map_kept_flatten (h : Yields r n tokens) (hvalued : ∀ t ∈ tokens, t.IsValued) :
    n.flatten.map Token.kept = tokens.map Token.kept := by
  induction h with
  | @literal t _ hvalue =>
    simp only [Node.flatten, List.map_cons, List.map_nil]
    rw [Token.kept_ofValue hvalue (hvalued t List.mem_cons_self)]
  | ref => rfl
  | grouping hopening hclosing _ ih =>
    have hinner := ih fun t ht => hvalued t (by simp [ht])
    simp only [Node.flatten, List.map_cons, List.map_append, List.map_nil, hinner,
      Token.kept_ofKind hopening (by decide), Token.kept_ofKind hclosing (by decide)]
  | unary _ _ ih =>
    have hright := ih fun t ht => hvalued t (by simp [ht])
    simp only [Node.flatten, List.map_cons, hright]
  | binary _ _ _ ih₁ ih₂ =>
    have hleft := ih₁ fun t ht => hvalued t (by simp [ht])
    have hright := ih₂ fun t ht => hvalued t (by simp [ht])
    simp only [Node.flatten, List.map_cons, List.map_append, hleft, hright]
  | assign _ hequals _ ih =>
    have hvalue := ih fun t ht => hvalued t (by simp [ht])
    simp only [Node.flatten, List.map_cons, hvalue, Token.kept_ofKind hequals (by decide)]
  | loosen _ _ ih => exact ih hvalued

theorem StatementYields.canonical (h : StatementYields s tokens) : s.CanonicalStatement := by
  cases h with
  | expression h => exact .expression h.canonical.1
  | print _ h => exact .print h.canonical.1
  | declare _ hname => exact .declare hname
  | define _ hname _ h => exact .define hname h.canonical.1

theorem StatementYields.map_kept_flatten (h : StatementYields s tokens)
    (hvalued : ∀ t ∈ tokens, t.IsValued) : s.flatten.map Token.kept = tokens.map Token.kept := by
  cases h with
  | expression h hsemicolon =>
    have hinner := h.map_kept_flatten fun t ht => hvalued t (by simp [ht])
    simp only [Node.flatten, List.map_append, List.map_cons, List.map_nil, hinner,
      Token.kept_ofKind hsemicolon (by decide)]
  | print hword h hsemicolon =>
    have hinner := h.map_kept_flatten fun t ht => hvalued t (by simp [ht])
    simp only [Node.flatten, List.map_append, List.map_cons, List.map_nil, hinner,
      Token.kept_ofKind hword (by decide), Token.kept_ofKind hsemicolon (by decide)]
  | declare hword _ hsemicolon =>
    simp only [Node.flatten, List.map_cons, List.map_nil, Token.kept_ofKind hword (by decide),
      Token.kept_ofKind hsemicolon (by decide)]
  | define hword _ hequals h hsemicolon =>
    have hvalue := h.map_kept_flatten fun t ht => hvalued t (by simp [ht])
    simp only [Node.flatten_var h.ne_null, List.map_append, List.map_cons, List.map_nil, hvalue,
      Token.kept_ofKind hword (by decide), Token.kept_ofKind hequals (by decide),
      Token.kept_ofKind hsemicolon (by decide)]

/-! Trees of the shape yield all tokens that keep what the written ones keep. -/

end Grammar

namespace Node

variable {r : Rank} {n s : Node} {tokens : List Token}

/-- A tree of the shape yields every list of tokens that keep what those that it is written as keep,
as an expression of its own rank and of all that are looser. -/
theorem Canonical.yields (h : n.Canonical) (hkept : tokens.map Token.kept = n.flatten.map Token.kept)
    (hrank : r.tightness ≤ n.rank.tightness) : Yields r n tokens := by
  refine Yields.loosen_of_le ?_ hrank
  clear hrank
  induction h generalizing tokens with
  | literal value =>
    obtain ⟨t, more, rfl, ht, hmore⟩ := List.map_eq_cons_iff.mp hkept
    obtain rfl := List.map_eq_nil_iff.mp hmore
    exact .literal (Token.literalValue_of_kept ht)
  | ref hname =>
    obtain ⟨t, more, rfl, ht, hmore⟩ := List.map_eq_cons_iff.mp hkept
    obtain rfl := List.map_eq_nil_iff.mp hmore
    obtain rfl := Token.eq_of_kept_eq ht (by rw [hname]; rfl)
    exact .ref hname
  | grouping _ ih =>
    rw [flatten, List.map_cons, List.map_append] at hkept
    obtain ⟨opening, more, rfl, hopening, hmore⟩ := List.map_eq_cons_iff.mp hkept
    obtain ⟨inner, last, rfl, hinner, hlast⟩ := List.map_eq_append_iff.mp hmore
    obtain ⟨closing, rest, rfl, hclosing, hrest⟩ := List.map_eq_cons_iff.mp hlast
    obtain rfl := List.map_eq_nil_iff.mp hrest
    exact .grouping (Token.kind_eq_of_kept_eq hopening) (Token.kind_eq_of_kept_eq hclosing)
      (ih hinner).loosest
  | unary hoperator _ hright ih =>
    obtain ⟨t, more, rfl, ht, hmore⟩ := List.map_eq_cons_iff.mp hkept
    obtain rfl := Token.eq_of_kept_eq ht (Token.Kind.isHeld_of_isUnaryOperator hoperator)
    refine .unary hoperator ((ih hmore).loosen_of_le ?_)
    rcases hright with hright | hright <;> simp [hright, Rank.tightness]
  | @binary r _ _ _ hoperator _ _ hleft hright ih₁ ih₂ =>
    rw [flatten, List.map_append, List.map_cons] at hkept
    obtain ⟨before, more, rfl, hbefore, hmore⟩ := List.map_eq_append_iff.mp hkept
    obtain ⟨t, after, rfl, ht, hafter⟩ := List.map_eq_cons_iff.mp hmore
    obtain rfl := Token.eq_of_kept_eq ht (Token.Kind.isHeld_of_joins hoperator)
    have hprimary : r ≠ .primary := by
      rintro rfl
      cases hoperator
    rw [rank, Rank.ofOperator_of_joins hoperator]
    refine .binary hoperator ((ih₁ hbefore).loosen_of_le hleft) ((ih₂ hafter).loosen_of_le ?_)
    rw [Rank.tightness_tighter hprimary]
    exact hright
  | assign hname _ ih =>
    obtain ⟨name, more, rfl, ht, hmore⟩ := List.map_eq_cons_iff.mp hkept
    obtain ⟨equals, value, rfl, hequals, hvalue⟩ := List.map_eq_cons_iff.mp hmore
    obtain rfl := Token.eq_of_kept_eq ht (by rw [hname]; rfl)
    exact .assign hname (Token.kind_eq_of_kept_eq hequals) (ih hvalue).loosest

/-- An expression of the shape is a whole one with the loosest rank. -/
theorem Canonical.yields_loosest (h : n.Canonical)
    (hkept : tokens.map Token.kept = n.flatten.map Token.kept) : Yields .assignment n tokens :=
  h.yields hkept (Nat.zero_le _)

theorem Canonical.ne_null (h : n.Canonical) : n ≠ .null := by
  rintro rfl
  cases h

theorem CanonicalStatement.yields (h : s.CanonicalStatement)
    (hkept : tokens.map Token.kept = s.flatten.map Token.kept) : StatementYields s tokens := by
  -- All but a declaration without a value ends with an expression and a semicolon.
  have hends {n : Node} {tokens : List Token} (h : n.Canonical) (hkept : tokens.map Token.kept =
      (n.flatten ++ [Token.ofKind .semicolon]).map Token.kept) :
      ∃ inner semicolon, tokens = inner ++ [semicolon] ∧ Yields .assignment n inner ∧
        semicolon.kind = .semicolon := by
    rw [List.map_append] at hkept
    obtain ⟨inner, last, rfl, hinner, hlast⟩ := List.map_eq_append_iff.mp hkept
    obtain ⟨semicolon, rest, rfl, hsemicolon, hrest⟩ := List.map_eq_cons_iff.mp hlast
    obtain rfl := List.map_eq_nil_iff.mp hrest
    exact ⟨inner, semicolon, rfl, h.yields_loosest hinner, Token.kind_eq_of_kept_eq hsemicolon⟩
  cases h with
  | expression h =>
    obtain ⟨inner, semicolon, rfl, hinner, hsemicolon⟩ := hends h hkept
    exact .expression hinner hsemicolon
  | print h =>
    obtain ⟨word, more, rfl, hword, hmore⟩ := List.map_eq_cons_iff.mp hkept
    obtain ⟨inner, semicolon, rfl, hinner, hsemicolon⟩ := hends h hmore
    exact .print (Token.kind_eq_of_kept_eq hword) hinner hsemicolon
  | declare hname =>
    obtain ⟨word, more, rfl, hword, hmore⟩ := List.map_eq_cons_iff.mp hkept
    obtain ⟨name, last, rfl, ht, hlast⟩ := List.map_eq_cons_iff.mp hmore
    obtain ⟨semicolon, rest, rfl, hsemicolon, hrest⟩ := List.map_eq_cons_iff.mp hlast
    obtain rfl := List.map_eq_nil_iff.mp hrest
    obtain rfl := Token.eq_of_kept_eq ht (by rw [hname]; rfl)
    exact .declare (Token.kind_eq_of_kept_eq hword) hname (Token.kind_eq_of_kept_eq hsemicolon)
  | define hname h =>
    rw [flatten_var h.ne_null] at hkept
    obtain ⟨word, more, rfl, hword, hmore⟩ := List.map_eq_cons_iff.mp hkept
    obtain ⟨name, more, rfl, ht, hmore⟩ := List.map_eq_cons_iff.mp hmore
    obtain ⟨equals, more, rfl, hequals, hmore⟩ := List.map_eq_cons_iff.mp hmore
    obtain ⟨value, semicolon, rfl, hvalue, hsemicolon⟩ := hends h hmore
    obtain rfl := Token.eq_of_kept_eq ht (by rw [hname]; rfl)
    exact .define (Token.kind_eq_of_kept_eq hword) hname (Token.kind_eq_of_kept_eq hequals) hvalue
      hsemicolon

end Node

/-! Programs. -/

namespace Grammar

variable {statements : List Node} {tokens : List Token}

/-- Statements of the shape yield all tokens that keep what those that they are written as keep. -/
theorem ProgramYields.of_canonical (hall : ∀ s ∈ statements, s.CanonicalStatement)
    (hkept : (statements.flatMap Node.flatten).map Token.kept = tokens.map Token.kept) :
    ProgramYields statements tokens := by
  induction statements generalizing tokens with
  | nil =>
    obtain rfl := List.map_eq_nil_iff.mp hkept.symm
    exact .nil
  | cons s rest ih =>
    obtain ⟨hs, hrest⟩ := List.forall_mem_cons.mp hall
    rw [List.flatMap_cons, List.map_append] at hkept
    obtain ⟨before, after, rfl, hbefore, hafter⟩ := List.map_eq_append_iff.mp hkept.symm
    exact .cons (hs.yields hbefore) (ih hrest hafter.symm)

/-- Statements yield some tokens exactly when they have the shape and are written as tokens that keep
the same. -/
theorem programYields_iff (hvalued : ∀ t ∈ tokens, t.IsValued) :
    ProgramYields statements tokens ↔ (∀ s ∈ statements, s.CanonicalStatement) ∧
      (statements.flatMap Node.flatten).map Token.kept = tokens.map Token.kept := by
  refine ⟨fun h => ?_, fun ⟨hall, hkept⟩ => .of_canonical hall hkept⟩
  induction h with
  | nil => exact ⟨nofun, rfl⟩
  | @cons s rest before after hs _ ih =>
    obtain ⟨hrest, hafter⟩ := ih fun t ht => hvalued t (by simp [ht])
    have hbefore := hs.map_kept_flatten fun t ht => hvalued t (by simp [ht])
    refine ⟨List.forall_mem_cons.mpr ⟨hs.canonical, hrest⟩, ?_⟩
    rw [List.flatMap_cons, List.map_append, List.map_append, hbefore, hafter]

/-- No tree yields an end mark. -/
theorem Yields.kind_ne_eof {r : Rank} {n : Node} (h : Yields r n tokens) :
    ∀ t ∈ tokens, t.kind ≠ .eof := by
  induction h with
  | @literal t _ hvalue =>
    refine List.forall_mem_singleton.mpr fun heof => ?_
    simp [literalValue?, heof] at hvalue
  | ref hname => simp [hname]
  | grouping hopening hclosing _ ih => simpa [hopening, hclosing, or_imp, forall_and] using ih
  | @unary operator _ _ hoperator _ ih =>
    refine List.forall_mem_cons.mpr ⟨fun heof => ?_, ih⟩
    rw [heof] at hoperator
    cases hoperator
  | @binary r operator _ _ _ _ hoperator _ _ ih₁ ih₂ =>
    refine List.forall_mem_append.mpr ⟨ih₁, List.forall_mem_cons.mpr ⟨fun heof => ?_, ih₂⟩⟩
    rw [heof] at hoperator
    cases r <;> cases hoperator
  | assign hname hequals _ ih => simpa [hname, hequals] using ih
  | loosen _ _ ih => exact ih

theorem StatementYields.kind_ne_eof {s : Node} (h : StatementYields s tokens) :
    ∀ t ∈ tokens, t.kind ≠ .eof := by
  cases h with
  | expression h hsemicolon =>
    simpa [hsemicolon, or_imp, forall_and] using h.kind_ne_eof
  | print hword h hsemicolon =>
    simpa [hword, hsemicolon, or_imp, forall_and] using h.kind_ne_eof
  | declare hword hname hsemicolon => simp [hword, hname, hsemicolon]
  | define hword hname hequals h hsemicolon =>
    simpa [hword, hname, hequals, hsemicolon, or_imp, forall_and] using h.kind_ne_eof

theorem ProgramYields.kind_ne_eof (h : ProgramYields statements tokens) :
    ∀ t ∈ tokens, t.kind ≠ .eof := by
  induction h with
  | nil => nofun
  | cons hs _ ih => exact List.forall_mem_append.mpr ⟨hs.kind_ne_eof, ih⟩

end Grammar

namespace Program

/-- Reading and writing back undo each other. A program is read without errors as some statements
exactly when they have the canonical shape, do not nest too deep, and are written as the tokens before
the end mark, up to what a tree does not keep: the spelling and the line of a token that is no name and
no operator. (Of a mark or a reserved word, a literal is not kept either, but scanned ones have none.)
So statements of the shape that do not nest too deep are just what is read from the tokens that they
are written as. -/
theorem ofTokensTo_flatten (depth : Nat) :
    (∀ (tokens : List Token) (statements : List Node), (∀ t ∈ tokens, t.IsValued) →
      (ofTokensTo depth tokens = ⟨statements, []⟩ ↔
        (∀ s ∈ statements, s.CanonicalStatement ∧ s.nesting ≤ depth) ∧
        (statements.flatMap Node.flatten).map Token.kept =
          (tokens.takeWhile fun t => t.kind ≠ .eof).map Token.kept)) ∧
    ∀ (statements : List Node) (mark : Token), mark.kind = .eof →
      (∀ s ∈ statements, s.CanonicalStatement ∧ s.nesting ≤ depth) →
      ofTokensTo depth (statements.flatMap Node.flatten ++ [mark]) = ⟨statements, []⟩ := by
  constructor
  · intro tokens statements hvalued
    have hbody : ∀ t ∈ tokens.takeWhile (fun t => t.kind ≠ .eof), t.IsValued :=
      fun t ht => hvalued t ((List.takeWhile_prefix _).subset ht)
    constructor
    · intro h
      have herrors : (ofTokensTo depth tokens).errors = [] := congrArg Program.errors h
      have hyields := programYields_of_errors_eq_nil herrors
      have hnesting := nesting_le_of_errors_eq_nil herrors
      rw [h] at hyields hnesting
      obtain ⟨hcanonical, hkept⟩ := (programYields_iff hbody).mp hyields
      exact ⟨fun s hs => ⟨hcanonical s hs, hnesting s hs⟩, hkept⟩
    · rintro ⟨hall, hkept⟩
      have hyields := (programYields_iff hbody).mpr ⟨fun s hs => (hall s hs).1, hkept⟩
      exact ofTokensTo_of_nesting_le hyields fun s hs => (hall s hs).2
  · intro statements mark hmark hall
    have hyields := ProgramYields.of_canonical (fun s hs => (hall s hs).1) rfl
    have hbody : (statements.flatMap Node.flatten ++ [mark]).takeWhile (fun t => t.kind ≠ .eof) =
        statements.flatMap Node.flatten := by
      rw [List.takeWhile_append_of_pos (by simpa using hyields.kind_ne_eof)]
      simp [hmark]
    rw [← hbody] at hyields
    exact ofTokensTo_of_nesting_le hyields fun s hs => (hall s hs).2

/-- An assignment of an equality whose left side is a product of a negation and a group, in a program
that nests as deep as is allowed. -/
theorem ofTokensTo_flatten_assignment :
    let mark (kind : Kind) : Token := ⟨kind, "?", .nil, 7⟩
    let name (lexeme : String) : Token := ⟨.identifier, lexeme, .nil, 7⟩
    let tokens := [name "a", mark .equal, mark .minus, name "b", mark .star, mark .leftParen,
      ⟨.number, "1.0", .number 1, 7⟩, mark .plus, mark .nilKeyword, mark .rightParen,
      mark .equalEqual, name "c", mark .semicolon, mark .eof]
    let statements := [.expression (.assign (name "a") (.binary
      (.binary (.unary (mark .minus) (.ref (name "b"))) (mark .star)
        (.grouping (.binary (.literal (.number 1)) (mark .plus) (.literal .nil))))
      (mark .equalEqual) (.ref (name "c"))))]
    (∀ t ∈ tokens, t.IsValued) ∧ ofTokensTo 2 tokens = ⟨statements, []⟩ ∧
      (∀ s ∈ statements, s.CanonicalStatement ∧ s.nesting ≤ 2) ∧
      (statements.flatMap Node.flatten).map Token.kept =
        (tokens.takeWhile fun t => t.kind ≠ .eof).map Token.kept ∧
      ofTokensTo 2 (statements.flatMap Node.flatten ++ [mark .eof]) = ⟨statements, []⟩ := by
  intro mark name tokens statements
  have hvalued : ∀ t ∈ tokens, t.IsValued := by
    simp [tokens, mark, name, Token.IsValued]
  have hread : ofTokensTo 2 tokens = ⟨statements, []⟩ := by
    with_unfolding_all rfl
  obtain ⟨hflatten, hagain⟩ := ofTokensTo_flatten 2
  obtain ⟨hcanonical, hkept⟩ := (hflatten tokens statements hvalued).mp hread
  exact ⟨hvalued, hread, hcanonical, hkept, hagain statements (mark .eof) rfl hcanonical⟩

end Program

end LoxCore
