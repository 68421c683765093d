import LoxCore.Proofs.Node.Executable

/-!
Trees with statements and expressions in their places, and the search for the first token of a tree.
-/
namespace LoxCore.Node

/-! The first token. -/

/-- The tokens of a part, in the order in which they are written down. -/
def Part.tokens : Part → List Token
  | token t => [t]
  | node n => n.tokens

theorem tokensAll_eq (items : List Node) : tokensAll items = items.flatMap tokens := by
  induction items with
  | nil => rfl
  | cons n rest ih => rw [tokensAll, ih, List.flatMap_cons]

/-- The tokens of a node are those of its parts, in the order of its fields. -/
theorem flatMap_tokens_parts (n : Node) : n.parts.flatMap Part.tokens = n.tokens := by
  have hitems (items : List Node) :
      (items.map Part.node).flatMap Part.tokens = tokensAll items := by
    rw [List.flatMap_map, tokensAll_eq]
    rfl
  cases n with
  | list items => exact hitems items
  | block items => exact hitems items
  | _ => simp [parts, Part.tokens, tokens]

/-- The search through some parts finds the first token of them all. -/
theorem firstToken?_eq (pending : List Part) :
    firstToken? pending = (pending.flatMap Part.tokens).head? := by
  fun_induction firstToken? pending with
  | case1 => rfl
  | case2 t rest => rfl
  | case3 n rest ih => rw [ih, List.flatMap_append, flatMap_tokens_parts, List.flatMap_cons, Part.tokens]

/-- The line of the first of some tokens, or zero if there are none. -/
def lineOfFirst (tokens : List Token) : Int :=
  (tokens.head?.map Token.line).getD 0

theorem firstLine_eq (n : Node) : n.firstLine = lineOfFirst n.tokens := by
  rw [firstLine, firstToken?_eq, List.flatMap_singleton, Part.tokens, lineOfFirst]

/-! Sorts. -/

/-- What can stand in a place of a tree. -/
inductive Category where
  | expression
  | statement
deriving DecidableEq, Repr

/-- The kinds of tokens that may stand as prefix operators, and as binary operators. -/
structure Operators where
  unary : Token.Kind → Prop
  binary : Token.Kind → Prop

/-- Any tokens as operators. -/
def Operators.any : Operators :=
  ⟨fun _ => True, fun _ => True⟩

/-- The operators that evaluation knows. -/
def Operators.known : Operators :=
  ⟨(· ∈ Value.unaryOperators), (· ∈ Value.binaryOperators)⟩

/-- Statements stand where statements belong, and expressions where expressions belong. Only the second
branch of a conditional and the initializer of a declaration may be absent. -/
inductive WellSorted (O : Operators) : Category → Node → Prop where
  | literal (value : Value) : WellSorted O .expression (.literal value)
  | ref (name : Token) : WellSorted O .expression (.ref name)
  | assign (name : Token) {value : Node} (h : WellSorted O .expression value) :
      WellSorted O .expression (.assign name value)
  | logical {left right : Node} (operator : Token) (h₁ : WellSorted O .expression left)
      (h₂ : WellSorted O .expression right) :
      WellSorted O .expression (.logical left operator right)
  | unary {operator : Token} {right : Node} (hkind : O.unary operator.kind)
      (h : WellSorted O .expression right) : WellSorted O .expression (.unary operator right)
  | binary {left right : Node} {operator : Token} (hkind : O.binary operator.kind)
      (h₁ : WellSorted O .expression left) (h₂ : WellSorted O .expression right) :
      WellSorted O .expression (.binary left operator right)
  | grouping {inner : Node} (h : WellSorted O .expression inner) :
      WellSorted O .expression (.grouping inner)
  | block {statements : List Node} (h : ∀ s ∈ statements, WellSorted O .statement s) :
      WellSorted O .statement (.block statements)
  | expression {inner : Node} (h : WellSorted O .expression inner) :
      WellSorted O .statement (.expression inner)
  | conditional {condition thenBranch : Node} (h₁ : WellSorted O .expression condition)
      (h₂ : WellSorted O .statement thenBranch) :
      WellSorted O .statement (.conditional condition thenBranch .null)
  | conditionalElse {condition thenBranch elseBranch : Node}
      (h₁ : WellSorted O .expression condition) (h₂ : WellSorted O .statement thenBranch)
      (h₃ : WellSorted O .statement elseBranch) :
      WellSorted O .statement (.conditional condition thenBranch elseBranch)
  | print {inner : Node} (h : WellSorted O .expression inner) :
      WellSorted O .statement (.print inner)
  | declare (name : Token) : WellSorted O .statement (.var name .null)
  | define (name : Token) {value : Node} (h : WellSorted O .expression value) :
      WellSorted O .statement (.var name value)

theorem WellSorted.ne_null {O : Operators} {category : Category} {n : Node}
    (h : n.WellSorted O category) : n ≠ null := by
  cases h <;> exact nofun

/-- An initializer that is there is evaluated like any other expression. -/
theorem evaluateInitializer_of_ne_null {n : Node} (h : n ≠ null) (detail : Nat) :
    evaluateInitializer detail n = evaluate detail n := by
  cases n <;> first | rfl | contradiction

end LoxCore.Node
