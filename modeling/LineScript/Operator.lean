/-!
# LineScript.Operator — the binary operators

Four arithmetic operators, six comparisons and two logical connectives, each with one spelling.
-/

namespace LineScript

/-- A binary operator. -/
inductive Operator
  | plus | minus | times | divide | equal | notEqual | less | lessEqual | greater | greaterEqual | and_ | or_
deriving DecidableEq, Repr

namespace Operator

/-- The spelling of an operator in a script. -/
def text : Operator → String
  | plus => "+"
  | minus => "-"
  | times => "*"
  | divide => "/"
  | equal => "=="
  | notEqual => "!="
  | less => "<"
  | lessEqual => "<="
  | greater => ">"
  | greaterEqual => ">="
  | and_ => "and"
  | or_ => "or"

/-- The operator with a given spelling. -/
def ofText? : String → Option Operator
  | "+" => some plus
  | "-" => some minus
  | "*" => some times
  | "/" => some divide
  | "==" => some equal
  | "!=" => some notEqual
  | "<" => some less
  | "<=" => some lessEqual
  | ">" => some greater
  | ">=" => some greaterEqual
  | "and" => some and_
  | "or" => some or_
  | _ => none

/-- Operators whose result is a truth value computed from two values of one type. -/
def isComparison : Operator → Bool
  | equal | notEqual | less | lessEqual | greater | greaterEqual => true
  | _ => false

@[simp] theorem ofText?_text (op : Operator) : ofText? op.text = some op := by
  cases op <;> rfl

theorem ofText?_eq_some_iff {s : String} {op : Operator} : ofText? s = some op ↔ s = op.text := by
  constructor
  · intro h
    unfold ofText? at h
    split at h <;> cases h <;> rfl
  · rintro rfl
    exact ofText?_text op

end Operator

end LineScript
