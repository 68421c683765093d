import LoxCore.Decimal.Layout

/-!
Values that a program computes with, and the rules that look at their kind: truth, equality,
order and the text that is printed.
-/
namespace LoxCore

/-- A value of a running program. -/
inductive Value where
  | nil
  | bool (b : Bool)
  | number (x : Float)
  | string (s : String)
deriving DecidableEq

namespace Value

/-- The name of a value's kind. -/
def kindName : Value → String
  | nil => "Nil"
  | bool _ => "Bool"
  | number _ => "Number"
  | string _ => "String"

/-- Only `nil` and `false` are false; zero and the empty string are true. -/
def truthy : Value → Bool
  | nil => false
  | bool b => b
  | number _ | string _ => true

/-- Equality within a kind, numbers by their value: a NaN differs from itself, the two zeros are
equal. Values of different kinds are never equal. -/
def equals : Value → Value → Bool
  | nil, nil => true
  | bool a, bool b => a == b
  | number x, number y => x == y
  | string s, string t => s == t
  | _, _ => false

/-- Strict order: numbers by value, all else by truth, where false comes first. -/
def less : Value → Value → Bool
  | number x, number y => decide (x < y)
  | a, b => !a.truthy && b.truthy

/-- Weak order. It is not `less` with its sides exchanged and negated: a NaN on either side fails
both. -/
def lessEq : Value → Value → Bool
  | number x, number y => decide (x ≤ y)
  | a, b => !a.truthy || b.truthy

/-- Printed numbers have no exponent and no point after a whole number. -/
def printed : NumberLayout where
  isPositional _ := true
  whole := []
  nan := "NaN"
  infinity := "inf"

/-- The text that printing a value shows. -/
def text : Value → String
  | nil => "nil"
  | bool b => if b then "true" else "false"
  | number x => printed.write x
  | string s => s

end Value

end LoxCore
