import LoxCore.Diagnostic
import LoxCore.Node

/-!
Unary and binary operators on values. Which operator a token stands for is decided by its kind.
-/
namespace LoxCore

/-- A tree that cannot be run because a node or operator stands where none of its kind can. Trees
read from source text never have one. -/
inductive Stuck where
  | notStatement (className : String)
  | notExpression (className : String)
  | unknownUnary (lexeme : String)
  | unknownBinary (lexeme : String)
deriving DecidableEq, Repr

def Stuck.message : Stuck → String
  | notStatement className => "execute: unexpected node type <class '" ++ className ++ "'>"
  | notExpression className => "evaluate: unexpected node type <class '" ++ className ++ "'>"
  | unknownUnary lexeme => "unknown unary operator " ++ lexeme
  | unknownBinary lexeme => "unknown binary operator " ++ lexeme

/-- The class that messages name for a node. -/
def Node.className : Node → String
  | null => "NoneType"
  | list _ => "list"
  | other => "lox.ast." ++ other.kindName

/-- Why a run stops before its end. -/
inductive Stop where
  | fault (d : Diagnostic)
  | stuck (s : Stuck)
deriving DecidableEq, Repr

namespace Value

/-- The result of operands that an operator does not take. -/
def mismatch {α : Type} (operator : Token) (operands : Diagnostic.Operands) : Except Stop α :=
  .error (.fault (.onLine operator.line (.typeMismatch operands)))

/-- Apply a prefix operator. -/
def applyUnary (operator : Token) (right : Value) : Except Stop Value :=
  match operator.kind with
  | .bang => .ok (.bool !right.truthy)
  | .minus =>
    match right with
    | number x => .ok (.number (-x))
    | _ => mismatch operator .oneNumber
  | _ => .error (.stuck (.unknownUnary operator.lexeme))

/-- An operation on two numbers. -/
def arithmetic (operator : Token) (f : Float → Float → Float) : Value → Value → Except Stop Value
  | number x, number y => .ok (.number (f x y))
  | _, _ => mismatch operator .numbers

/-- The sum of two numbers, or two strings one after the other. -/
def add (operator : Token) : Value → Value → Except Stop Value
  | number x, number y => .ok (.number (x + y))
  | string s, string t => .ok (.string (s ++ t))
  | _, _ => mismatch operator .numbersOrStrings

/-- The quotient of two numbers. A number other than zero divided by zero is infinite, and zero
divided by zero is not a number. -/
def divide (x y : Float) : Float :=
  x / y

/-- Apply a binary operator. The orders and the equalities take operands of all kinds. -/
def applyBinary (operator : Token) (left right : Value) : Except Stop Value :=
  match operator.kind with
  | .plus => add operator left right
  | .minus => arithmetic operator (· - ·) left right
  | .star => arithmetic operator (· * ·) left right
  | .slash => arithmetic operator divide left right
  | .greater => .ok (.bool (right.less left))
  | .greaterEqual => .ok (.bool (right.lessEq left))
  | .less => .ok (.bool (left.less right))
  | .lessEqual => .ok (.bool (left.lessEq right))
  | .equalEqual => .ok (.bool (left.equals right))
  | .bangEqual => .ok (.bool !(left.equals right))
  | _ => .error (.stuck (.unknownBinary operator.lexeme))

end Value

end LoxCore
