import LineScript.Operator
import LineScript.Value

/-!
# LineScript.Value.Operation — operators on values

Both operands have one type; a mixture is refused.  Whole numbers are computed exactly and refused when the result
does not fit into 32 bits; quotients are cut toward zero.  Doubles follow binary64 arithmetic, except that dividing by
zero of either sign is refused.

* `Value.add`, `sub`, `mul`, `div`: arithmetic.
* `Value.compare`: the six comparisons; truth values are only equal or not.
* `Value.and`, `or`, `not`, `sqrt`.
* `Value.apply`: the operation that an operator stands for.
-/

namespace LineScript.Value

/-- Arithmetic from its two halves, on whole numbers and on doubles. -/
def arithmetic (op : Operator) (whole : Int → Int → Except Cause Int) (fractional : Float → Float → Except Cause Float) :
    Value → Value → Except Cause Value
  | integer l, integer r => whole l.toInt r.toInt >>= ofInt
  | real l, real r => real <$> fractional l r
  | logical _, logical _ => .error (.invalidOperator op.text)
  | _, _ => .error .typesIncompatible

/-- The sum. -/
def add : Value → Value → Except Cause Value :=
  arithmetic .plus (fun l r => .ok (l + r)) (fun l r => .ok (l + r))

/-- The difference. -/
def sub : Value → Value → Except Cause Value :=
  arithmetic .minus (fun l r => .ok (l - r)) (fun l r => .ok (l - r))

/-- The product. -/
def mul : Value → Value → Except Cause Value :=
  arithmetic .times (fun l r => .ok (l * r)) (fun l r => .ok (l * r))

/-- The quotient, cut toward zero for whole numbers. -/
def div : Value → Value → Except Cause Value :=
  arithmetic .divide
    (fun l r => if r = 0 then .error .divisionByZero else .ok (l.tdiv r))
    (fun l r => if r == 0.0 then .error .divisionByZero else .ok (l / r))

/-- The six comparisons from equality and the two orders. -/
def holds? (op : Operator) (equal less lessEqual greater greaterEqual : Bool) : Option Bool :=
  match op with
  | .equal => some equal
  | .notEqual => some !equal
  | .less => some less
  | .lessEqual => some lessEqual
  | .greater => some greater
  | .greaterEqual => some greaterEqual
  | _ => none

/-- The truth value of a comparison. -/
def compare (l : Value) (op : Operator) (r : Value) : Except Cause Value :=
  let result : Except Cause (Option Bool) :=
    match l, r with
    | integer l, integer r => .ok (holds? op (l == r) (l < r) (l ≤ r) (r < l) (r ≤ l))
    | real l, real r => .ok (holds? op (l == r) (l < r) (l ≤ r) (r < l) (r ≤ l))
    | logical l, logical r =>
      match op with
      | .equal => .ok (some (l == r))
      | .notEqual => .ok (some (l != r))
      | _ => .ok none
    | _, _ => .error .typesIncompatible
  match result with
  | .ok (some b) => .ok (logical b)
  | .ok none => .error (.invalidOperator op.text)
  | .error cause => .error cause

/-- Both are true. -/
def and : Value → Value → Except Cause Value
  | logical l, logical r => .ok (logical (l && r))
  | _, _ => .error (.invalidOperator Operator.and_.text)

/-- At least one is true. -/
def or : Value → Value → Except Cause Value
  | logical l, logical r => .ok (logical (l || r))
  | _, _ => .error (.invalidOperator Operator.or_.text)

/-- The opposite truth value. -/
def not : Value → Except Cause Value
  | logical b => .ok (logical !b)
  | _ => .error (.invalidOperator Keyword.not_.text)

/-- The square root of a double that is not below zero. -/
def sqrt : Value → Except Cause Value
  | real x => if x < 0.0 then .error (.invalidArgument (realText x)) else .ok (real x.sqrt)
  | _ => .error .typesIncompatible

/-- The operation that an operator stands for. -/
def apply (l : Value) (op : Operator) (r : Value) : Except Cause Value :=
  match op with
  | .plus => add l r
  | .minus => sub l r
  | .times => mul l r
  | .divide => div l r
  | .and_ => and l r
  | .or_ => or l r
  | _ => compare l op r

end LineScript.Value
