import LoxCore.Token

/-!
Diagnostics: what went wrong, where, and how it is worded. Each cause has a numeric code; the codes
from 100 to 103 are those that a running program raises.
-/
namespace LoxCore

namespace Diagnostic

/-- The parts of the language that can be written in a saved tree but not run. -/
inductive Construct where
  | block
  | conditional
  | logical
deriving DecidableEq, Repr

/-- What an operator asks of its operands. -/
inductive Operands where
  | oneNumber
  | numbers
  | numbersOrStrings
deriving DecidableEq, Repr

/-- The token that a grammar rule asks for. -/
inductive Expected where
  | variableName
  | semicolonAfterDeclaration
  | semicolonAfterValue
  | semicolonAfterExpression
  | closingParen
deriving DecidableEq, Repr

/-- What went wrong. -/
inductive Cause where
  | unexpectedCharacter
  | unterminatedString
  | expectExpression
  | expectToken (expected : Expected)
  | invalidAssignmentTarget
  | nestingTooDeep
  | undefinedVariable (name : String)
  | typeMismatch (operands : Operands)
  | unsupported (construct : Construct)
  | evaluationTooDeep
  /-- A code and wording of the caller's own. -/
  | other (code : Int) (message : String)
deriving DecidableEq, Repr

/-- The code of a missing token, which is also the code of a diagnostic made without one. -/
def expectTokenCode : Int := 69

/-- The code of operands of the wrong kind. -/
def typeMismatchCode : Int := 101

/-- The numeric code of a cause. -/
def Cause.code : Cause → Int
  | unexpectedCharacter => 10
  | unterminatedString => 11
  | expectExpression => 42
  | expectToken _ => expectTokenCode
  | invalidAssignmentTarget => 70
  | nestingTooDeep => 71
  | undefinedVariable _ => 100
  | typeMismatch _ => typeMismatchCode
  | unsupported _ => 102
  | evaluationTooDeep => 103
  | other code _ => code

def Construct.phrase : Construct → String
  | block => "Block statements"
  | conditional => "If statements"
  | logical => "Logical operators"

def Operands.message : Operands → String
  | oneNumber => "Operand must be a number."
  | numbers => "Operands must be numbers."
  | numbersOrStrings => "Operands must be two numbers or two strings."

def Expected.message : Expected → String
  | variableName => "Expect variable name."
  | semicolonAfterDeclaration => "Expect ';' after variable declaration."
  | semicolonAfterValue => "Expect ';' after value."
  | semicolonAfterExpression => "Expect ';' after expression."
  | closingParen => "Expect ')' after expression."

/-- The wording of a cause. -/
def Cause.message : Cause → String
  | unexpectedCharacter => "Unexpected character."
  | unterminatedString => "Unterminated string."
  | expectExpression => "Expect expression."
  | expectToken expected => expected.message
  | invalidAssignmentTarget => "Invalid assignment target."
  | nestingTooDeep => "Expression nesting too deep."
  | undefinedVariable name => "Undefined variable '" ++ name ++ "'."
  | typeMismatch operands => operands.message
  | unsupported construct => construct.phrase ++ " are not supported yet."
  | evaluationTooDeep => "Expression nesting too deep to evaluate."
  | other _ message => message

/-- The place in the text that a diagnostic points at, beside its line. -/
inductive Place where
  | unnamed
  | atEnd
  | at (lexeme : String)
  /-- A wording of the caller's own. -/
  | other (text : String)
deriving DecidableEq, Repr

def Place.text : Place → String
  | unnamed => ""
  | atEnd => " at end"
  | .at lexeme => " at '" ++ lexeme ++ "'"
  | other text => text

/-- The place of a token: its text, or the end of the source. -/
def Place.ofToken (token : Token) : Place :=
  if token.kind = .eof then atEnd else .at token.lexeme

end Diagnostic

/-- One diagnostic. -/
structure Diagnostic where
  line : Int
  cause : Diagnostic.Cause
  place : Diagnostic.Place
deriving DecidableEq, Repr

namespace Diagnostic

/-- A diagnostic that points at a token. -/
def onToken (token : Token) (cause : Cause) : Diagnostic :=
  ⟨token.line, cause, .ofToken token⟩

/-- A diagnostic that names a line and no place on it. -/
def onLine (line : Int) (cause : Cause) : Diagnostic :=
  ⟨line, cause, .unnamed⟩

def code (d : Diagnostic) : Int := d.cause.code

def message (d : Diagnostic) : String := d.cause.message

/-- Whether a running program raised it. -/
def isRuntime (d : Diagnostic) : Bool :=
  decide (d.code ∈ [100, 101, 102, 103])

/-- The one-line form: line, place and wording. -/
def text (d : Diagnostic) : String :=
  "[line " ++ toString d.line ++ "] Error" ++ d.place.text ++ ": " ++ d.message

/-- The form shown to the user. One raised by a running program shows its line below the wording. -/
def report (d : Diagnostic) : String :=
  if d.isRuntime then d.message ++ "\n[line " ++ toString d.line ++ "]\n" else d.text ++ "\n"

end Diagnostic

end LoxCore
