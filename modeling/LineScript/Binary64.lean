/-!
# LineScript.Binary64 — doubles as integers

The bit pattern of a double without its sign, read as a natural number, orders the magnitudes: 0 is zero, patterns
below `Binary64.infinity` are the finite magnitudes in increasing order, and those above it are no numbers.  Every
finite magnitude is a whole multiple of the *grain* `2 ^ -1074`.

* `Binary64.grains p`: the magnitude with pattern `p`, counted in grains.
* `Binary64.nearest num den`: the pattern nearest to `num / den`, a half going to the even one.  Patterns from
  `Binary64.infinity` on mean that the quotient is too large.
* `Binary64.truncate x`: the whole part of a finite double.
-/

namespace LineScript

/-- The quotient `n / d` rounded to the nearest whole number, a half going to the even neighbour. -/
def roundHalfEven (n d : Nat) : Nat :=
  let q := n / d
  let r := n % d
  if 2 * r < d then q
  else if d < 2 * r then q + 1
  else q + q % 2

namespace Binary64

/-- The number of grains in the unit: `2 ^ 1074`. -/
def one : Nat := Nat.pow 2 1074

/-- The number of patterns that share an exponent. -/
def binade : Nat := Nat.pow 2 52

/-- The pattern of infinity. -/
def infinity : Nat := 2047 * binade

/-- The pattern of what is no number, as it is made from its name. -/
def notANumber : Nat := infinity + Nat.pow 2 51

/-- The weight of the sign in a bit pattern. -/
def signWeight : Nat := Nat.pow 2 63

/-- How far the significand of a pattern is shifted. -/
def shift (p : Nat) : Nat :=
  p / binade - 1

/-- The significand of a pattern, with the leading bit that the pattern leaves out. -/
def significand (p : Nat) : Nat :=
  p - shift p * binade

/-- The magnitude with a given pattern, counted in grains. -/
def grains (p : Nat) : Nat :=
  significand p * Nat.pow 2 (shift p)

/-- The pattern nearest to `num / den`. -/
def nearest (num den : Nat) : Nat :=
  let n := num * one
  let s := (n / den).log2 - 52
  s * binade + roundHalfEven n (den * Nat.pow 2 s)

/-- The pattern of a double, its sign left out. -/
def pattern (x : Float) : Nat :=
  x.toBits.toNat % signWeight

/-- The sign bit of a double. -/
def isNegative (x : Float) : Bool :=
  signWeight ≤ x.toBits.toNat

/-- The double with a given sign and pattern. -/
def ofPattern (negative : Bool) (p : Nat) : Float :=
  Float.ofBits (UInt64.ofNat (if negative then signWeight + p else p))

/-- The double is a number other than the infinities. -/
def isFinite (x : Float) : Bool :=
  pattern x < infinity

/-- The double is no number. -/
def isNaN (x : Float) : Bool :=
  infinity < pattern x

/-- The whole part of a finite double, cut toward zero. -/
def truncate (x : Float) : Int :=
  let whole : Int := grains (pattern x) / one
  if isNegative x then -whole else whole

/-- The double nearest to a whole number. -/
def ofInt (n : Int) : Float :=
  ofPattern (n < 0) (nearest n.natAbs 1)

end Binary64

end LineScript
