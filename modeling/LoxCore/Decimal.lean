import LoxCore.Double

/-!
Decimal fractions: reading one as the nearest binary64 number, and finding the shortest one that
reads back as a given number.
-/
namespace LoxCore

/-- The fraction `coefficient * 10 ^ exponent`. -/
structure Decimal where
  coefficient : Nat
  exponent : Int
deriving DecidableEq, Repr

namespace Decimal

/-- The number that a row of decimal digits denotes. -/
def digitsValue (digits : List Char) : Nat :=
  digits.foldl (fun n c => 10 * n + (c.toNat - '0'.toNat)) 0

/-- The fraction written as whole digits, a point, further digits, and a power of ten. -/
def ofDigits (whole fraction : List Char) (power : Int) : Decimal :=
  ⟨digitsValue (whole ++ fraction), power - fraction.length⟩

/-- The decimal digits of a number, most significant first. -/
def digits (n : Nat) : List Char :=
  Nat.toDigits 10 n

/-- Where the point stands, counted from the first digit: the fraction lies below `10 ^ point`. -/
def point (d : Decimal) : Int :=
  (digits d.coefficient).length + d.exponent

/-- The magnitude nearest to a fraction. The two outer tests only spare the arithmetic on powers of
ten: at `10 ^ 310` all is infinite, and below `10 ^ -330` all is zero. -/
def nearest (d : Decimal) : Nat :=
  if d.coefficient = 0 ∨ d.point ≤ -330 then 0
  else if 310 < d.point then Double.infinityBits
  else Double.nearest (d.coefficient * Nat.pow 10 d.exponent.toNat) (Nat.pow 10 (-d.exponent).toNat)

/-- The binary64 number nearest to a fraction of the given sign. -/
def toFloat (negative : Bool) (d : Decimal) : Float :=
  Double.ofMagnitude negative d.nearest

/-- The fraction that a finite magnitude denotes, with no rounding: a half is five tenths. -/
def exact (bits : Nat) : Decimal :=
  let m := Double.significand bits
  let q := Double.exponent bits
  if 0 ≤ q then ⟨m * Nat.pow 2 q.toNat, 0⟩ else ⟨m * Nat.pow 5 (-q).toNat, q⟩

/-- The two fractions that enclose `d` on the grid with `cut` fewer digits, the nearer one first.
A fraction halfway between them has its even neighbour first. -/
def neighbours (d : Decimal) (cut : Nat) : List Decimal :=
  let unit := Nat.pow 10 cut
  let quotient := d.coefficient / unit
  let rest := d.coefficient % unit
  let below : Decimal := ⟨quotient, d.exponent + cut⟩
  let above : Decimal := ⟨quotient + 1, d.exponent + cut⟩
  if 2 * rest < unit ∨ (2 * rest = unit ∧ quotient % 2 = 0) then [below, above] else [above, below]

/-- The fraction with the fewest digits that reads back as the given magnitude, and the nearest of
those. The grids are tried from one digit up; the last one holds the exact fraction itself. -/
def shortest (bits : Nat) : Decimal :=
  let d := exact bits
  let cuts := (List.range (digits d.coefficient).length).reverse
  (cuts.findSome? fun cut => (d.neighbours cut).find? fun e => e.nearest = bits).getD d

end Decimal

end LoxCore
