import LoxCore.Action

/-!
Evaluation of expressions and execution of statements, with a trace of a given level of detail.
Operands are evaluated from left to right, and the first fault ends the run.
-/
namespace LoxCore.Node

/-- Evaluate an expression. -/
def evaluate (detail : Nat) : Node → Action Value
  | literal value => pure value
  | ref name => Action.read name
  | assign name value => do
    let v ← evaluate detail value
    Action.assign name v
    Action.note detail (.assigned name.lexeme v)
    return v
  | grouping inner => evaluate detail inner
  | unary operator right => do
    let v ← evaluate detail right
    Action.ofResult (v.applyUnary operator)
  | binary left operator right => do
    let a ← evaluate detail left
    let b ← evaluate detail right
    let c ← Action.ofResult (Value.applyBinary operator a b)
    Action.note detail (.computed a operator.lexeme b c)
    return c
  | logical _ operator _ => Action.stop (.fault (.onLine operator.line (.unsupported .logical)))
  | other => Action.stop (.stuck (.notExpression other.className))

/-- The value of the initializer of a declaration, which is `nil` if there is none. -/
def evaluateInitializer (detail : Nat) : Node → Action Value
  | null => pure .nil
  | initializer => evaluate detail initializer

/-- What a statement does, once it is known not to nest too deep. -/
def perform (detail : Nat) (statement : Node) : Action Unit :=
  match statement with
  | expression inner => do
    let _ ← evaluate detail inner
  | print inner => do
    let v ← evaluate detail inner
    Action.print v.text
  | var name initializer => do
    let v ← evaluateInitializer detail initializer
    Action.define name.lexeme v
    Action.note detail (.defined name.lexeme v)
  | block _ => Action.stop (.fault (.onLine statement.firstLine (.unsupported .block)))
  | conditional .. => Action.stop (.fault (.onLine statement.firstLine (.unsupported .conditional)))
  | other => Action.stop (.stuck (.notStatement other.className))

/-- Execute a statement. One that nests too deep fails before any of it is evaluated, and the trace
does not show it. -/
def execute (detail : Nat) (statement : Node) : Action Unit :=
  if statement.isTooDeep then
    Action.stop (.fault (.onLine statement.firstLine .evaluationTooDeep))
  else do
    Action.note detail (.executing statement)
    perform detail statement

/-- Execute statements up to the first that fails. -/
def interpret (detail : Nat) : List Node → Action Unit
  | [] => pure ()
  | statement :: rest => do
    execute detail statement
    interpret detail rest

end LoxCore.Node
