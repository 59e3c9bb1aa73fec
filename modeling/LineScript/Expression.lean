import LineScript.Literal
import LineScript.Value.Operation
import LineScript.Variables

/-!
# LineScript.Expression — evaluation

An expression has one to three tokens: a symbol, an operator word with a symbol, or two symbols with an operator
between them.  A symbol that names a live variable stands for it, also when it could be read as a literal.

* `Variables.resolve`: a symbol at a given type.
* `Variables.evaluate`: two symbols and an operator at a given operand type; the operands are settled, left before
  right, before the operator is looked at.
* `Variables.condition`: the truth value of a condition.
* `Variables.assigned`: the value that an assignment to a variable of a given type computes.
* `Variables.levels`: the number of blocks that a `break` or `continue` names.
-/

namespace LineScript

/-- The right side of an assignment, or a condition. -/
inductive Expression
  | symbol (symbol : String)
  | unary (operator symbol : String)
  | binary (left operator right : String)
deriving DecidableEq, Repr, Inhabited

/-- One to three tokens as an expression. -/
def Expression.ofTokens? : List String → Option Expression
  | [a] => some (.symbol a)
  | [op, a] => some (.unary op a)
  | [l, op, r] => some (.binary l op r)
  | _ => none

namespace Variables

/-- The value of a symbol at type `ty`: a live variable of that type, else a literal of that type. -/
def resolve (vars : Variables) (symbol : String) (ty : Ty) : Except Cause Value :=
  match vars.find? symbol with
  | some v => if v.ty = ty then .ok v.value else .error (.typeMismatch symbol)
  | none =>
    match Literal.parse? symbol ty with
    | some value => .ok value
    | none => .error (.unresolvedSymbol symbol)

/-- The type that a symbol has by itself. -/
def infer? (vars : Variables) (symbol : String) : Option Ty :=
  match vars.find? symbol with
  | some v => some v.ty
  | none => Literal.type? symbol

/-- The value of a symbol at the type that it has by itself. -/
def resolveAny (vars : Variables) (symbol : String) : Except Cause Value :=
  match vars.infer? symbol with
  | some ty => vars.resolve symbol ty
  | none => .error (.unresolvedSymbol symbol)

/-- The type at which two symbols are compared.  Variables decide before literals, the left one first; a whole number
written beside a fractional one is read as a double. -/
def operandType (vars : Variables) (left right : String) : Except Cause Ty :=
  match vars.find? left, vars.find? right with
  | some v, _ => .ok v.ty
  | none, some v => .ok v.ty
  | none, none =>
    match Literal.type? left with
    | some .integer => .ok (if Literal.type? right = some .real then .real else .integer)
    | some ty => .ok ty
    | none => .error (.unresolvedSymbol left)

/-- The value of an operator between two symbols of type `ty`. -/
def evaluate (vars : Variables) (left operator right : String) (ty : Ty) : Except Cause Value := do
  let l ← vars.resolve left ty
  let r ← vars.resolve right ty
  match Operator.ofText? operator with
  | some op => l.apply op r
  | none => throw (.invalidOperator operator)

/-- The value of an operator word in front of a symbol: `not`, `sqrt`, or the name of a type to convert to. -/
def unary (vars : Variables) (operator symbol : String) : Except Cause Value :=
  match Keyword.ofText? operator with
  | some .not_ => vars.resolve symbol .logical >>= Value.not
  | some .sqrt => vars.resolve symbol .real >>= Value.sqrt
  | some word =>
    match Ty.ofKeyword? word with
    | some ty => vars.resolveAny symbol >>= fun value => value.convert ty
    | none => .error (.invalidOperator operator)
  | none => .error (.invalidOperator operator)

/-- The value of a single symbol assigned to a variable of type `ty`: a variable of that type, else a literal of that
type. -/
def copied (vars : Variables) (symbol : String) (ty : Ty) : Except Cause Value :=
  match vars.find? symbol with
  | some v => if v.ty = ty then .ok v.value else .error .typesIncompatible
  | none =>
    match Literal.parse? symbol ty with
    | some value => .ok value
    | none => .error (.unresolvedSymbol symbol)

/-- The operand type of a binary expression assigned to a variable of type `target`. -/
def assignedOperandType (vars : Variables) (left operator right : String) (target : Ty) : Except Cause Ty :=
  match Operator.ofText? operator with
  | some op =>
    if op.isComparison then vars.operandType left right
    else if op = .and_ ∨ op = .or_ then .ok .logical
    else .ok target
  | none => .ok target

/-- The value of an expression before it is checked against the type of the variable it is assigned to. -/
def computed (vars : Variables) (target : Ty) : Expression → Except Cause Value
  | .symbol a => vars.copied a target
  | .unary op a => vars.unary op a
  | .binary l op r => do
    let ty ← vars.assignedOperandType l op r target
    vars.evaluate l op r ty

/-- The value that an assignment to a variable of type `target` computes. -/
def assigned (vars : Variables) (target : Ty) (e : Expression) : Except Cause Value := do
  let value ← vars.computed target e
  if value.ty = target then return value else throw .typesIncompatible

/-- The value of a condition before it is checked to be a truth value. -/
def tested (vars : Variables) : Expression → Except Cause Value
  | .symbol a => vars.resolve a .logical
  | .unary op a =>
    if Keyword.ofText? op = some .not_ then vars.resolve a .logical >>= Value.not
    else .error (.invalidOperator op)
  | .binary l op r => do
    let ty ←
      match Operator.ofText? op with
      | some .and_ | some .or_ => pure Ty.logical
      | _ => vars.operandType l r
    vars.evaluate l op r ty

/-- The truth value of a condition. -/
def condition (vars : Variables) (e : Expression) : Except Cause Bool := do
  match ← vars.tested e with
  | .logical b => return b
  | _ => throw .typesIncompatible

/-- The number of blocks that a symbol names, at least one. -/
def levels (vars : Variables) (symbol : String) : Except Cause Nat := do
  match ← vars.resolve symbol .integer with
  | .integer n => if 1 ≤ n.toInt then return n.toInt.toNat else throw (.invalidArgument symbol)
  | _ => throw (.invalidArgument symbol)

end Variables

end LineScript
