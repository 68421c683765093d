import LoxCore.Decimal.Layout

/-!
JSON values, with integers kept apart from other numbers, and how they are written.
-/
namespace LoxCore

/-- A JSON value. The fields of an object are in the order in which their names first came up. -/
inductive Json where
  | null
  | bool (b : Bool)
  /-- A number written without a point and without an exponent. -/
  | integer (n : Int)
  | number (x : Float)
  | string (s : String)
  | array (items : List Json)
  | object (fields : List (String × Json))

namespace Json

/-- The value of a field. -/
def field? (fields : List (String × Json)) (name : String) : Option Json :=
  fields.lookup name

/-! Written form. -/

/-- Numbers have a point or an exponent, so none looks like an integer. Exponents stand from
`10 ^ 16` on and below a ten-thousandth. -/
def numbers : NumberLayout where
  isPositional e := decide (-4 ≤ e ∧ e < 16)
  whole := ['.', '0']
  nan := "NaN"
  infinity := "Infinity"

/-- The digits of an integer after its sign. -/
def integerText (n : Int) : List Char :=
  if n < 0 then '-' :: Decimal.digits n.natAbs else Decimal.digits n.natAbs

/-- A digit from zero to fifteen. -/
def hexDigit (n : Nat) : Char :=
  Nat.digitChar n

/-- A character inside quotes. Only the quote, the backslash and the control characters below the
space are escaped, the latter by a letter where they have one. -/
def escaped (c : Char) : List Char :=
  if c = '"' then ['\\', '"']
  else if c = '\\' then ['\\', '\\']
  else if c = '\n' then ['\\', 'n']
  else if c = '\r' then ['\\', 'r']
  else if c = '\t' then ['\\', 't']
  else if c = '\x08' then ['\\', 'b']
  else if c = '\x0c' then ['\\', 'f']
  else if c.toNat < 32 then
    ['\\', 'u', '0', '0', hexDigit (c.toNat / 16), hexDigit (c.toNat % 16)]
  else [c]

def quoted (s : String) : List Char :=
  '"' :: s.toList.flatMap escaped ++ ['"']

/-- A new line indented by two spaces a level. -/
def newLine (level : Nat) : List Char :=
  '\n' :: List.replicate (2 * level) ' '

mutual

/-- The text of a value inside `level` arrays and objects: one item or field a line, and nothing
between the brackets of what is empty. -/
def layout (level : Nat) : Json → List Char
  | null => ['n', 'u', 'l', 'l']
  | bool b => if b then ['t', 'r', 'u', 'e'] else ['f', 'a', 'l', 's', 'e']
  | integer n => integerText n
  | number x => (numbers.write x).toList
  | string s => quoted s
  | array [] => ['[', ']']
  | array (item :: rest) =>
    '[' :: newLine (level + 1) ++ layout (level + 1) item ++ layoutItems (level + 1) rest ++
      newLine level ++ [']']
  | object [] => ['\x7b', '\x7d']
  | object ((name, value) :: rest) =>
    '\x7b' :: newLine (level + 1) ++ quoted name ++ [':', ' '] ++ layout (level + 1) value ++
      layoutFields (level + 1) rest ++ newLine level ++ ['\x7d']

/-- The items after the first. -/
def layoutItems (level : Nat) : List Json → List Char
  | [] => []
  | item :: rest => ',' :: newLine level ++ layout level item ++ layoutItems level rest

/-- The fields after the first. -/
def layoutFields (level : Nat) : List (String × Json) → List Char
  | [] => []
  | (name, value) :: rest =>
    ',' :: newLine level ++ quoted name ++ [':', ' '] ++ layout level value ++
      layoutFields level rest

end

/-- The text of a value. -/
def write (j : Json) : String :=
  String.ofList (j.layout 0)

end Json

end LoxCore
