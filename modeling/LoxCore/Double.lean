/-!
Binary64 numbers through their bit patterns. A magnitude is a pattern without its sign bit; larger
magnitudes denote larger numbers, up to infinity.
-/
namespace LoxCore.Double

/-- The magnitude of infinity, the first one that denotes no finite number. -/
def infinityBits : Nat := 0x7ff0000000000000

/-- The pattern of a number without its sign bit. -/
def magnitude (x : Float) : Nat :=
  x.toBits.toNat % 0x8000000000000000

/-- The sign bit. Negative zero has it, and no NaN does. -/
def isNegative (x : Float) : Bool :=
  decide (0x8000000000000000 ≤ x.toBits.toNat)

/-- The number of a given sign and magnitude. -/
def ofMagnitude (negative : Bool) (bits : Nat) : Float :=
  Float.ofBits (UInt64.ofNat (if negative then 0x8000000000000000 + bits else bits))

/-- A finite magnitude denotes `significand * 2 ^ exponent`. Below `2 ^ 52` the pattern is the
significand; above, its low 52 bits follow a leading one. -/
def significand (bits : Nat) : Nat :=
  if bits < 0x10000000000000 then bits else 0x10000000000000 + bits % 0x10000000000000

/-- The binary exponent that goes with `significand`. -/
def exponent (bits : Nat) : Int :=
  if bits < 0x10000000000000 then -1074 else (bits / 0x10000000000000 : Nat) - 1075

/-- The integer nearest to `n / d`. A half goes to the even neighbour. -/
def roundRatio (n d : Nat) : Nat :=
  if 2 * (n % d) < d then n / d
  else if d < 2 * (n % d) then n / d + 1
  else n / d + n / d % 2

/-- Whether `2 ^ k ≤ n / d`. -/
def reaches (k : Int) (n d : Nat) : Bool :=
  decide (d * Nat.pow 2 k.toNat ≤ n * Nat.pow 2 (-k).toNat)

/-- The largest `k` with `2 ^ k ≤ n / d`, for positive `n` and `d`. -/
def log2Ratio (n d : Nat) : Int :=
  let k : Int := (n.log2 : Int) - d.log2
  if reaches k n d then k else k - 1

/-- The magnitude nearest to `n / d`, ties going to the even pattern. The significand is rounded at
the exponent that leaves it 53 bits, or at the least exponent of all. A significand that rounds up
to 54 bits carries into the exponent field, and past the largest finite magnitude lies infinity. -/
def nearest (n d : Nat) : Nat :=
  if n = 0 then 0
  else
    let q := max (log2Ratio n d - 52) (-1074)
    let m := roundRatio (n * Nat.pow 2 (-q).toNat) (d * Nat.pow 2 q.toNat)
    min ((q + 1074).toNat * 0x10000000000000 + m) infinityBits

end LoxCore.Double
