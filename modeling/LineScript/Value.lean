import LineScript.Decimal
import LineScript.Fault
import LineScript.Keyword

/-!
# LineScript.Value — types and values

There are whole numbers of 32 bits, truth values and doubles.

* `Value.zero`: the value of a fresh variable.
* `Value.text`: a value as it is printed.
* `Value.convert`: the explicit conversions between the three types.
-/

namespace LineScript

/-- The types of variables. -/
inductive Ty
  | integer | logical | real
deriving DecidableEq, Repr, Inhabited

namespace Ty

/-- The spelling of a type in a declaration. -/
def text : Ty → String
  | integer => "integer"
  | logical => "logical"
  | real => "real"

/-- The type that a keyword names. -/
def ofKeyword? : Keyword → Option Ty
  | .integer => some integer
  | .logical => some logical
  | .real => some real
  | _ => none

end Ty

/-- A value of one of the three types. -/
inductive Value
  | integer (n : Int32)
  | logical (b : Bool)
  | real (x : Float)
deriving Inhabited

namespace Value

/-- The value that a variable of type `ty` is declared with. -/
def zero : Ty → Value
  | .integer => integer 0
  | .logical => logical false
  | .real => real 0.0

/-- The type of a value. -/
def ty : Value → Ty
  | integer _ => .integer
  | logical _ => .logical
  | real _ => .real

/-- A value as it is printed. -/
def text : Value → String
  | integer n => Int.repr n.toInt
  | logical true => "true"
  | logical false => "false"
  | real x => realText x

/-- The value counts as false: zero of either sign, or `false`. -/
def isZero : Value → Bool
  | integer n => n == 0
  | logical b => !b
  | real x => x == 0.0

/-- A whole number as a value, if it fits into 32 bits. -/
def ofInt (n : Int) : Except Cause Value :=
  if -2147483648 ≤ n ∧ n ≤ 2147483647 then .ok (integer (Int32.ofInt n)) else .error .overflow

/-- The value as a whole number; doubles lose their fraction. -/
def toInteger : Value → Except Cause Value
  | integer n => .ok (integer n)
  | logical b => .ok (integer (if b then 1 else 0))
  | real x => if Binary64.isFinite x then ofInt (Binary64.truncate x) else .error .overflow

/-- The value as a double. -/
def toReal : Value → Float
  | integer n => Binary64.ofInt n.toInt
  | logical b => if b then 1.0 else 0.0
  | real x => x

/-- The value converted to type `ty`. -/
def convert (v : Value) : Ty → Except Cause Value
  | .integer => v.toInteger
  | .logical => .ok (logical !v.isZero)
  | .real => .ok (real v.toReal)

@[simp] theorem ty_zero (ty : Ty) : (zero ty).ty = ty := by
  cases ty <;> rfl

end Value

end LineScript
