import LoxCore.Grammar.Reader

/-!
The grammar of expressions, from the loosest level to the tightest: assignment, equality, comparison,
term, factor, unary, primary. A level may nest others inside it only to a bounded depth, and that
bound is what the readers are built by recursion on.
-/
namespace LoxCore.Grammar

open Reader

def isEqualityOperator : Token.Kind → Bool
  | .bangEqual | .equalEqual => true
  | _ => false

def isComparisonOperator : Token.Kind → Bool
  | .greater | .greaterEqual | .less | .lessEqual => true
  | _ => false

def isTermOperator : Token.Kind → Bool
  | .minus | .plus => true
  | _ => false

def isFactorOperator : Token.Kind → Bool
  | .slash | .star => true
  | _ => false

def isUnaryOperator : Token.Kind → Bool
  | .bang | .minus => true
  | _ => false

/-- A literal, a variable, or an expression in parentheses. -/
def primary (nested : Reader Node) : Reader Node where
  read
    | [] => .failed [] ⟨.expectExpression, []⟩
    | t :: rest =>
      match t.kind with
      | .falseKeyword => .done (.literal (.bool false)) [] rest
      | .trueKeyword => .done (.literal (.bool true)) [] rest
      | .nilKeyword => .done (.literal .nil) [] rest
      | .number | .string => .done (.literal t.literal.value) [] rest
      | .identifier => .done (.ref t) [] rest
      | .leftParen => ((nested.read rest).map .grouping).expect .rightParen .closingParen
      | _ => .failed [] ⟨.expectExpression, t :: rest⟩
  within
    | [] => Nat.le_refl _
    | t :: rest => by
      simp only
      split
      all_goals first
        | exact Nat.lt_succ_self _
        | exact Nat.le_refl _
        | exact (((nested.within rest).map _).expect _ _).mono (Nat.le_succ _)

/-- Any number of operators before a primary expression, each a level of its own. -/
def unary (deeper nested : Reader Node) : Reader Node where
  read
    | [] => (primary nested).read []
    | t :: rest =>
      if isUnaryOperator t.kind then (deeper.read rest).map (.unary t)
      else (primary nested).read (t :: rest)
  within
    | [] => (primary nested).within []
    | t :: rest => by
      simp only
      split
      · exact ((deeper.within rest).map _).mono (Nat.le_succ _)
      · exact (primary nested).within (t :: rest)

/-- The four levels of binary operators. -/
def equality (operand : Reader Node) : Reader Node :=
  chain isEqualityOperator <| chain isComparisonOperator <| chain isTermOperator <|
    chain isFactorOperator operand

/-- What an assignment to `target` is. Only a bare variable can be assigned to; any other target
stays as it is, and the fault at the equals sign is noted after those of the value. -/
def assignTo (target value : Node) (noted : List Fault) (equals : List Token)
    (left : List Token) : Attempt Node :=
  match target with
  | .ref name => .done (.assign name value) noted left
  | other => .done other (noted ++ [⟨.invalidAssignmentTarget, equals⟩]) left

/-- An equality, and if an equals sign follows, the value assigned to it. -/
def assignment (target value : Reader Node) : Reader Node where
  read tokens :=
    match target.read tokens with
    | .failed noted fault => .failed noted fault
    | .done node noted [] => .done node noted []
    | .done node noted (t :: rest) =>
      if t.kind = .equal then
        match value.read rest with
        | .failed more fault => .failed (noted ++ more) fault
        | .done v more left => assignTo node v (noted ++ more) (t :: rest) left
      else .done node noted (t :: rest)
  within tokens := by
    have outer := target.within tokens
    split <;> rename_i hread <;> rw [hread] at outer
    · exact outer
    · exact outer
    · rename_i t rest
      have inner := value.within rest
      split
      · split <;> rename_i hvalue <;> rw [hvalue] at inner
        · exact Nat.le_trans inner (Nat.le_of_lt (Nat.lt_trans (Nat.lt_succ_self _) outer))
        · have := Nat.lt_trans inner (Nat.lt_trans (Nat.lt_succ_self _) outer)
          unfold assignTo
          split <;> exact this
      · exact outer

/-- The readers for expressions that may nest to some depth. -/
structure Level where
  unary : Reader Node
  expression : Reader Node

/-- The readers one level above others. -/
def Level.above (deeper : Level) : Level :=
  let operand := Grammar.unary deeper.unary deeper.expression
  ⟨operand, assignment (equality operand) deeper.expression⟩

/-- The readers for expressions with `depth` levels of parentheses, prefix operators and assigned
values inside each other. -/
def Level.ofDepth : Nat → Level
  | 0 => Level.above ⟨tooDeep, tooDeep⟩
  | depth + 1 => (Level.ofDepth depth).above

/-- Expressions that nest to a given depth. -/
def expression (depth : Nat) : Reader Node :=
  (Level.ofDepth depth).expression

end LoxCore.Grammar
