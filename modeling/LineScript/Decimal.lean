import LineScript.Binary64

/-!
# LineScript.Decimal — doubles as decimal text

A `Decimal` is a whole coefficient times a power of ten.

* `Decimal.digitsValue`: the number that digits stand for (`Decimal.digitsValue_eq`).
* `Decimal.pattern`: the magnitude nearest to a decimal.
* `Decimal.exact`: the decimal equal to a magnitude; there always is one.
* `Decimal.shortest`: among the decimals that read back as a magnitude, one with the fewest digits, and the nearest
  of those; of two equally near ones the larger.
* `Decimal.plain`: positional notation, never with an exponent, without a final zero after the point.
* `realText`: a double as text.
-/

namespace LineScript

/-- The number `coefficient * 10 ^ exponent`. -/
structure Decimal where
  coefficient : Nat
  exponent : Int
deriving DecidableEq, Repr, Inhabited

namespace Decimal

/-- The number that a run of decimal digits stands for, read from left to right. -/
def positional (cs : List Char) : Nat :=
  cs.foldl (fun n c => 10 * n + (c.toNat - '0'.toNat)) 0

/-- The same number by halves, cut `depth` times at most, so that long runs are read by few large products. -/
def byHalves : Nat → List Char → Nat
  | 0, cs => positional cs
  | depth + 1, cs =>
    if cs.length ≤ 64 then positional cs
    else
      let low := cs.length / 2
      let high := cs.length - low
      byHalves depth (cs.take high) * Nat.pow 10 low + byHalves depth (cs.drop high)

/-- The number that a run of decimal digits stands for. -/
def digitsValue (cs : List Char) : Nat :=
  byHalves cs.length.log2 cs

theorem foldl_positional (cs : List Char) (n : Nat) :
    cs.foldl (fun n c => 10 * n + (c.toNat - '0'.toNat)) n = n * Nat.pow 10 cs.length + positional cs := by
  induction cs generalizing n with
  | nil => simp [positional]
  | cons c cs ih =>
    rw [positional, List.foldl_cons, List.foldl_cons, ih, ih (10 * 0 + _)]
    simp only [List.length_cons, Nat.pow_eq, Nat.pow_succ, Nat.add_mul]
    have h : 10 * n * 10 ^ cs.length = n * (10 ^ cs.length * 10) := by
      rw [Nat.mul_comm 10 n, Nat.mul_assoc, Nat.mul_comm 10]
    omega

/-- The value of two runs, one after the other. -/
theorem positional_append (xs ys : List Char) :
    positional (xs ++ ys) = positional xs * Nat.pow 10 ys.length + positional ys := by
  rw [positional, List.foldl_append, foldl_positional]
  rfl

theorem byHalves_eq (depth : Nat) (cs : List Char) : byHalves depth cs = positional cs := by
  induction depth generalizing cs with
  | zero => rfl
  | succ depth ih =>
    rw [byHalves]
    split
    · rfl
    · have happ := positional_append (cs.take (cs.length - cs.length / 2)) (cs.drop (cs.length - cs.length / 2))
      have hlen : cs.length - (cs.length - cs.length / 2) = cs.length / 2 := by omega
      rw [List.take_append_drop, List.length_drop, hlen] at happ
      simp only [ih, happ]

/-- Reading by halves gives the positional value. -/
theorem digitsValue_eq (cs : List Char) : digitsValue cs = positional cs :=
  byHalves_eq _ cs

/-- The pattern of the magnitude nearest to a decimal.  Exponents far out of range are settled without computing the
power of ten: above `10 ^ 400` all is too large, below `10 ^ -330` all is nearest to zero. -/
def pattern (d : Decimal) : Nat :=
  if d.coefficient = 0 then 0
  else if 400 < d.exponent then Binary64.infinity
  else if d.exponent + d.coefficient.log2 + 1 < -330 then 0
  else if 0 ≤ d.exponent then Binary64.nearest (d.coefficient * Nat.pow 10 d.exponent.toNat) 1
  else Binary64.nearest d.coefficient (Nat.pow 10 (-d.exponent).toNat)

/-- The decimal equal to the magnitude with pattern `p`. -/
def exact (p : Nat) : Decimal :=
  let s := Binary64.shift p
  if 1074 ≤ s then ⟨Binary64.significand p * Nat.pow 2 (s - 1074), 0⟩
  else ⟨Binary64.significand p * Nat.pow 5 (1074 - s), (s : Int) - 1074⟩

/-- The digits of the coefficient. -/
def digits (d : Decimal) : List Char :=
  Nat.toDigits 10 d.coefficient

/-- The decimal without its last `lost` digits. -/
def cut (d : Decimal) (lost : Nat) : Decimal :=
  ⟨d.coefficient / Nat.pow 10 lost, d.exponent + lost⟩

/-- The next larger decimal with the same exponent. -/
def next (d : Decimal) : Decimal :=
  ⟨d.coefficient + 1, d.exponent⟩

/-- The last `lost` digits make up less than half of a unit in the last digit kept. -/
def cutIsNearer (d : Decimal) (lost : Nat) : Bool :=
  2 * (d.coefficient % Nat.pow 10 lost) < Nat.pow 10 lost

/-- A decimal next to `d`, with `lost` digits less, that reads back as pattern `p`; the nearer one if both neighbours
do. -/
def neighbour? (p : Nat) (d : Decimal) (lost : Nat) : Option Decimal :=
  let below := d.cut lost
  let above := below.next
  if below.pattern = p then
    if above.pattern = p && !d.cutIsNearer lost then some above else some below
  else if above.pattern = p then some above
  else none

/-- The shortest decimal that reads back as pattern `p`; 17 digits are always enough. -/
def shortest (p : Nat) : Decimal :=
  let d := exact p
  let width := d.digits.length
  ((List.range' 1 17).findSome? fun n => neighbour? p d (width - n)).getD d

/-- The digits after the point: `n` written with `places` digits, final zeros dropped. -/
def fractionDigits (n places : Nat) : List Char :=
  let ds := Nat.toDigits 10 n
  ((List.replicate (places - ds.length) '0' ++ ds).reverse.dropWhile (· == '0')).reverse

/-- Positional notation. -/
def plain (d : Decimal) : List Char :=
  if 0 ≤ d.exponent then Nat.toDigits 10 (d.coefficient * Nat.pow 10 d.exponent.toNat)
  else
    let places := (-d.exponent).toNat
    let whole := Nat.toDigits 10 (d.coefficient / Nat.pow 10 places)
    match fractionDigits (d.coefficient % Nat.pow 10 places) places with
    | [] => whole
    | fraction => whole ++ '.' :: fraction

end Decimal

/-- A double as text: the shortest digits that read back, or the name of what is no finite number. -/
def realText (x : Float) : String :=
  let p := Binary64.pattern x
  let sign := if Binary64.isNegative x then "-" else ""
  if p < Binary64.infinity then sign ++ String.ofList (Decimal.shortest p).plain
  else if p = Binary64.infinity then sign ++ "inf"
  else "NaN"

end LineScript
