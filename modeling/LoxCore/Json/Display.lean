import LoxCore.Json
import LoxCore.Text.Printable

/-!
JSON values as messages show them: on one line, in single quotes, with every character that has no
printed form escaped by its number.
-/
namespace LoxCore.Json

/-- As in JSON text, but not-a-number and infinity are in lower case. -/
def displayedNumbers : NumberLayout :=
  { numbers with nan := "nan", infinity := "inf" }

/-- A number in hexadecimal with at least `width` digits. -/
def hexText (width n : Nat) : List Char :=
  let digits := Nat.toDigits 16 n
  List.replicate (width - digits.length) '0' ++ digits

/-- A character between two quotes of the given kind. -/
def displayChar (quote c : Char) : List Char :=
  if c = quote ∨ c = '\\' then ['\\', c]
  else if c = '\n' then ['\\', 'n']
  else if c = '\r' then ['\\', 'r']
  else if c = '\t' then ['\\', 't']
  else if Text.isPrintable c then [c]
  else if c.toNat < 0x100 then '\\' :: 'x' :: hexText 2 c.toNat
  else if c.toNat < 0x10000 then '\\' :: 'u' :: hexText 4 c.toNat
  else '\\' :: 'U' :: hexText 8 c.toNat

/-- A string in single quotes, or in double ones if that spares escaping. -/
def displayString (s : String) : String :=
  let cs := s.toList
  let quote := if cs.contains '\'' && !cs.contains '"' then '"' else '\''
  String.ofList (quote :: cs.flatMap (displayChar quote) ++ [quote])

mutual

/-- A value on one line. -/
def display : Json → String
  | null => "None"
  | bool b => if b then "True" else "False"
  | integer n => String.ofList (integerText n)
  | number x => displayedNumbers.write x
  | string s => displayString s
  | array items => "[" ++ ", ".intercalate (displayItems items) ++ "]"
  | object fields => "\x7b" ++ ", ".intercalate (displayFields fields) ++ "\x7d"

def displayItems : List Json → List String
  | [] => []
  | item :: rest => display item :: displayItems rest

def displayFields : List (String × Json) → List String
  | [] => []
  | (name, value) :: rest => (displayString name ++ ": " ++ display value) :: displayFields rest

end

/-- A value inside a sentence: a string by its characters alone, all else on one line. -/
def mention : Json → String
  | string s => s
  | other => other.display

end LoxCore.Json
