import LoxCore.Decimal

/-!
Texts of binary64 numbers. Every layout writes the digits of the shortest fraction that reads back;
a layout decides where the point and the exponent go.
-/
namespace LoxCore

/-- The choices that one way of writing numbers makes. -/
structure NumberLayout where
  /-- Whether a number whose first digit stands for `10 ^ e` is written without an exponent. -/
  isPositional : Int → Bool
  /-- What follows the digits of a whole number. -/
  whole : List Char
  nan : String
  infinity : String

namespace NumberLayout

/-- Digits around a point that stands `point` places after the first digit. -/
def positional (layout : NumberLayout) (digits : List Char) (point : Int) : List Char :=
  if point ≤ 0 then '0' :: '.' :: (List.replicate (-point).toNat '0' ++ digits)
  else if digits.length ≤ point.toNat then
    digits ++ List.replicate (point.toNat - digits.length) '0' ++ layout.whole
  else digits.take point.toNat ++ '.' :: digits.drop point.toNat

/-- An exponent with its sign and at least two digits. -/
def exponentText (e : Int) : List Char :=
  let digits := Decimal.digits e.natAbs
  (if e < 0 then '-' else '+') :: (List.replicate (2 - digits.length) '0' ++ digits)

/-- One digit before the point, the others after it, then a power of ten. -/
def scientific (digits : List Char) (e : Int) : List Char :=
  let mantissa := match digits with
    | first :: second :: more => first :: '.' :: second :: more
    | short => short
  mantissa ++ 'e' :: exponentText e

/-- The digits without the zeros at their end. -/
def significant (digits : List Char) : List Char :=
  (digits.reverse.dropWhile (· = '0')).reverse

/-- A fraction in this layout. -/
def fraction (layout : NumberLayout) (d : Decimal) : List Char :=
  match significant (Decimal.digits d.coefficient) with
  | [] => '0' :: layout.whole
  | digits =>
    if layout.isPositional (d.point - 1) then layout.positional digits d.point
    else scientific digits (d.point - 1)

/-- A number in this layout. The sign is that of the bit pattern, so negative zero shows it. -/
def write (layout : NumberLayout) (x : Float) : String :=
  if x.isNaN then layout.nan
  else
    let sign := if Double.isNegative x then "-" else ""
    if Double.magnitude x = Double.infinityBits then sign ++ layout.infinity
    else sign ++ String.ofList (layout.fraction (Decimal.shortest (Double.magnitude x)))

end NumberLayout

end LoxCore
