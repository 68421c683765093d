import LoxCore.Value

/-!
Tokens: a kind, the text it was cut from, the line, and for numbers and strings what they denote.
-/
namespace LoxCore

namespace Token

/-- The kinds of token. Grammar rules look at nothing else. -/
inductive Kind where
  | leftParen | rightParen | leftBrace | rightBrace | comma | dot | minus | plus | semicolon
  | slash | star
  | bang | bangEqual | equal | equalEqual | greater | greaterEqual | less | lessEqual
  | identifier | string | number
  | andKeyword | classKeyword | elseKeyword | falseKeyword | funKeyword | forKeyword | ifKeyword
  | nilKeyword | orKeyword | printKeyword | returnKeyword | superKeyword | thisKeyword | trueKeyword
  | varKeyword | whileKeyword
  | eof
deriving DecidableEq, Repr

namespace Kind

/-- Every kind, each once. -/
def all : List Kind :=
  [leftParen, rightParen, leftBrace, rightBrace, comma, dot, minus, plus, semicolon, slash, star,
    bang, bangEqual, equal, equalEqual, greater, greaterEqual, less, lessEqual,
    identifier, string, number,
    andKeyword, classKeyword, elseKeyword, falseKeyword, funKeyword, forKeyword, ifKeyword,
    nilKeyword, orKeyword, printKeyword, returnKeyword, superKeyword, thisKeyword, trueKeyword,
    varKeyword, whileKeyword, eof]

/-- The name of a kind in saved trees. -/
def name : Kind → String
  | leftParen => "LEFT_PAREN"
  | rightParen => "RIGHT_PAREN"
  | leftBrace => "LEFT_BRACE"
  | rightBrace => "RIGHT_BRACE"
  | comma => "COMMA"
  | dot => "DOT"
  | minus => "MINUS"
  | plus => "PLUS"
  | semicolon => "SEMICOLON"
  | slash => "SLASH"
  | star => "STAR"
  | bang => "BANG"
  | bangEqual => "BANG_EQUAL"
  | equal => "EQUAL"
  | equalEqual => "EQUAL_EQUAL"
  | greater => "GREATER"
  | greaterEqual => "GREATER_EQUAL"
  | less => "LESS"
  | lessEqual => "LESS_EQUAL"
  | identifier => "IDENTIFIER"
  | string => "STRING"
  | number => "NUMBER"
  | andKeyword => "AND"
  | classKeyword => "CLASS"
  | elseKeyword => "ELSE"
  | falseKeyword => "FALSE"
  | funKeyword => "FUN"
  | forKeyword => "FOR"
  | ifKeyword => "IF"
  | nilKeyword => "NIL"
  | orKeyword => "OR"
  | printKeyword => "PRINT"
  | returnKeyword => "RETURN"
  | superKeyword => "SUPER"
  | thisKeyword => "THIS"
  | trueKeyword => "TRUE"
  | varKeyword => "VAR"
  | whileKeyword => "WHILE"
  | eof => "EOF"

/-- The kind of a given name. -/
def ofName? (s : String) : Option Kind :=
  all.find? fun kind => kind.name == s

theorem mem_all (kind : Kind) : kind ∈ all := by
  cases kind <;> decide

theorem ofName?_name (kind : Kind) : ofName? kind.name = some kind := by
  cases kind <;> rfl

/-- The one spelling of an operator, a punctuation mark or a reserved word. -/
def spelling? : Kind → Option String
  | leftParen => some "("
  | rightParen => some ")"
  | leftBrace => some "\x7b"
  | rightBrace => some "\x7d"
  | comma => some ","
  | dot => some "."
  | minus => some "-"
  | plus => some "+"
  | semicolon => some ";"
  | slash => some "/"
  | star => some "*"
  | bang => some "!"
  | bangEqual => some "!="
  | equal => some "="
  | equalEqual => some "=="
  | greater => some ">"
  | greaterEqual => some ">="
  | less => some "<"
  | lessEqual => some "<="
  | andKeyword => some "and"
  | classKeyword => some "class"
  | elseKeyword => some "else"
  | falseKeyword => some "false"
  | funKeyword => some "fun"
  | forKeyword => some "for"
  | ifKeyword => some "if"
  | nilKeyword => some "nil"
  | orKeyword => some "or"
  | printKeyword => some "print"
  | returnKeyword => some "return"
  | superKeyword => some "super"
  | thisKeyword => some "this"
  | trueKeyword => some "true"
  | varKeyword => some "var"
  | whileKeyword => some "while"
  | identifier | string | number | eof => none

/-- The reserved words, which no identifier may spell. -/
def keywords : List Kind :=
  [andKeyword, classKeyword, elseKeyword, falseKeyword, funKeyword, forKeyword, ifKeyword,
    nilKeyword, orKeyword, printKeyword, returnKeyword, superKeyword, thisKeyword, trueKeyword,
    varKeyword, whileKeyword]

/-- The kind of a whole word: a reserved word's own, or an identifier. -/
def ofWord (word : String) : Kind :=
  (keywords.find? fun kind => kind.spelling? == some word).getD identifier

end Kind

/-- What a token carries beside its text. An integer stands only in tokens of saved trees, where it
was written without a point. -/
inductive Literal where
  | nil
  | bool (b : Bool)
  | integer (n : Int)
  | number (x : Float)
  | string (s : String)
deriving DecidableEq

namespace Literal

/-- The value a literal denotes in an expression. -/
def value : Literal → Value
  | nil => .nil
  | bool b => .bool b
  | integer n => .number (Decimal.toFloat (decide (n < 0)) ⟨n.natAbs, 0⟩)
  | number x => .number x
  | string s => .string s

/-- The literal that denotes a value. -/
def ofValue : Value → Literal
  | .nil => nil
  | .bool b => bool b
  | .number x => number x
  | .string s => string s

theorem value_ofValue (v : Value) : (ofValue v).value = v := by
  cases v <;> rfl

end Literal

end Token

/-- A token. Tokens made by hand may carry any text and any line. -/
structure Token where
  kind : Token.Kind
  lexeme : String
  literal : Token.Literal
  line : Int
deriving DecidableEq

namespace Token

/-- The mark after the last token of a source. -/
def endMark (line : Int) : Token :=
  ⟨.eof, "", .nil, line⟩

end Token

end LoxCore
