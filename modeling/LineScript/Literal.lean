import LineScript.Value

/-!
# LineScript.Literal — values written in a script

* Whole numbers: an optional minus and decimal digits, within 32 bits.
* Truth values: `true` and `false`.
* Doubles: an optional sign, digits with an optional point among or beside them, an optional decimal exponent; the
  nearest double is taken, and a number too large for a finite double is no literal.  An exponent is read until it
  reaches `2 ^ 16`, which only a literal of as many digits can bring back into the range of doubles.

`Literal.double?` reads doubles as they are written outside of scripts, where infinity and what is no number have names;
`Literal.real?` keeps of them what is a literal.  `Literal.parse? ty` reads a literal of a given type, and `Literal.type?` finds the type that a bare literal has.
-/

namespace LineScript.Literal

/-- The characters are one or more decimal digits. -/
def areDigits (cs : List Char) : Bool :=
  !cs.isEmpty && cs.all Char.isDigit

/-- A leading minus split off. -/
def splitMinus : List Char → Bool × List Char
  | '-' :: rest => (true, rest)
  | cs => (false, cs)

/-- A leading sign split off; the first part says whether it is a minus. -/
def splitSign : List Char → Bool × List Char
  | '-' :: rest => (true, rest)
  | '+' :: rest => (false, rest)
  | cs => (false, cs)

/-- Reads a whole number of 32 bits. -/
def integer? (cs : List Char) : Option Int32 :=
  let (negative, ds) := splitMinus cs
  if areDigits ds then
    let n : Int := Decimal.digitsValue ds
    let n := if negative then -n else n
    if -2147483648 ≤ n ∧ n ≤ 2147483647 then some (Int32.ofInt n) else none
  else none

/-- Reads a truth value. -/
def logical? : String → Option Bool
  | "true" => some true
  | "false" => some false
  | _ => none

/-- The exponent that a run of decimal digits stands for.  Reading stops at the digit with which the number reaches
`2 ^ 16`; what follows is dropped. -/
def exponentValue (cs : List Char) : Nat :=
  cs.foldl (fun n c => if n < 65536 then 10 * n + (c.toNat - '0'.toNat) else n) 0

/-- Reads the exponent of a double, the part from the letter on. -/
def exponent? : List Char → Option Int
  | [] => some 0
  | c :: rest =>
    if c = 'e' ∨ c = 'E' then
      let (negative, ds) := splitSign rest
      if areDigits ds then
        let n : Int := exponentValue ds
        some (if negative then -n else n)
      else none
    else none

/-- The digits after a point split off, if the text starts with a point. -/
def splitFraction : List Char → List Char × List Char
  | '.' :: rest => (rest.takeWhile Char.isDigit, rest.dropWhile Char.isDigit)
  | cs => ([], cs)

/-- Reads a decimal without sign. -/
def decimal? (cs : List Char) : Option Decimal :=
  let whole := cs.takeWhile Char.isDigit
  let (fraction, rest) := splitFraction (cs.dropWhile Char.isDigit)
  if whole.isEmpty && fraction.isEmpty then none
  else (exponent? rest).map fun e => ⟨Decimal.digitsValue (whole ++ fraction), e - fraction.length⟩

/-- The pattern of what is named and not written with digits; the case of the letters does not matter. -/
def named? (cs : List Char) : Option Nat :=
  match cs.map Char.toLower with
  | ['i', 'n', 'f'] | ['i', 'n', 'f', 'i', 'n', 'i', 't', 'y'] => some Binary64.infinity
  | ['n', 'a', 'n'] => some Binary64.notANumber
  | _ => none

/-- Reads the sign and the pattern of a double, the infinities and what is no number among them. -/
def double? (cs : List Char) : Option (Bool × Nat) :=
  let (negative, body) := splitSign cs
  match decimal? body with
  | some d => some (negative, min d.pattern Binary64.infinity)
  | none => (named? body).map fun p => (negative, p)

/-- The characters of doubles that are written with digits. -/
def isNumeralChar (c : Char) : Bool :=
  c.isDigit || c == '.' || c == '-' || c == '+' || c == 'e' || c == 'E'

/-- Reads a finite double. -/
def finite? (cs : List Char) : Option Float :=
  match double? cs with
  | some (negative, p) => if p < Binary64.infinity then some (Binary64.ofPattern negative p) else none
  | none => none

/-- Reads a double that is a literal.  Texts without a digit and texts with other characters are refused before they are
read. -/
def real? (cs : List Char) : Option Float :=
  if !cs.any Char.isDigit then none
  else if !cs.all isNumeralChar then none
  else finite? cs

/-- Reads a literal of type `ty`. -/
def parse? (s : String) : Ty → Option Value
  | .integer => (integer? s.toList).map .integer
  | .logical => (logical? s).map .logical
  | .real => (real? s.toList).map .real

/-- The type of a bare literal: whole numbers before doubles. -/
def type? (s : String) : Option Ty :=
  if (logical? s).isSome then some .logical
  else if (integer? s.toList).isSome then some .integer
  else if (real? s.toList).isSome then some .real
  else none

end LineScript.Literal
