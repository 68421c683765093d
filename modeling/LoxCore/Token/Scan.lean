import LoxCore.Token.Piece
import LoxCore.Diagnostic

/-!
Scanning: the tokens of a source text and the diagnostics of what is no token. A token stands on the
line where it starts, and a line ends at each line feed, also inside a string.
-/
namespace LoxCore

namespace Piece

/-- The pieces with the lines on which they start, when the first starts on `line`. -/
def numbered (line : Nat) : List Piece → List (Nat × Piece)
  | [] => []
  | p :: more => (line, p) :: numbered (line + p.lineFeeds) more

/-- The number that a numeral denotes, rounded to the nearest. -/
def numeral (text : List Char) : Float :=
  let whole := text.takeWhile (· ≠ '.')
  let fraction := (text.dropWhile (· ≠ '.')).drop 1
  Decimal.toFloat false (Decimal.ofDigits whole fraction 0)

/-- What a token of a given kind and text denotes: a numeral its number, a string the characters
between its quotes. -/
def literal (kind : Token.Kind) (text : List Char) : Token.Literal :=
  match kind with
  | .number => .number (numeral text)
  | .string => .string (String.ofList (text.drop 1).dropLast)
  | _ => .nil

def token? : Nat × Piece → Option Token
  | (line, .token kind text) => some ⟨kind, String.ofList text, literal kind text, line⟩
  | _ => none

def diagnostic? : Nat × Piece → Option Diagnostic
  | (line, .stray _) => some (.onLine line .unexpectedCharacter)
  | (line, .unclosed _) => some (.onLine line .unterminatedString)
  | _ => none

end Piece

/-- The result of scanning a source text. -/
structure Scan where
  /-- The tokens of the text, without the end mark. -/
  body : List Token
  errors : List Diagnostic
  /-- The line of the end of the text. -/
  endLine : Nat

namespace Scan

/-- Scan a source text. -/
def ofSource (source : String) : Scan :=
  let pieces := Piece.numbered 1 (Piece.split source.toList)
  { body := pieces.filterMap Piece.token?
    errors := pieces.filterMap Piece.diagnostic?
    endLine := 1 + source.toList.count '\n' }

/-- The tokens with the end mark after them. -/
def tokens (s : Scan) : List Token :=
  s.body ++ [Token.endMark s.endLine]

end Scan

end LoxCore
