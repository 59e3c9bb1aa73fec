import LineScript.Expression
import Mathlib.Logic.Function.Basic
import Mathlib.Tactic.SplitIfs

/-!
# LineScript.Proofs.Renaming — other names for the variables

A name that is neither a keyword nor a literal is only ever compared with other names.  A renaming replaces such names
by others of their kind, one to one, and leaves every other token as it is.

* `Name.IsPlain`: the names that a renaming may replace.
* `Renaming`: maps of tokens.  `Renaming.congr`: what is the same for all plain names is not changed by a renaming.
* `Agree r g x x'`: two computations give results that are related by `g`, or fail with the same cause but for the names
  that it quotes.
* `Variables.find?_rename`: a renamed table has the same variable under the new name.
* `Variables.agree_declare`, `agree_store`, `agree_assigned`, `agree_condition`, `agree_levels`: all that statements do
  with a table, from one lemma for each way in which a token is looked up.
-/

namespace LineScript

/-! ### Renamings -/

theorem Literal.type?_eq_none_iff {s : String} : Literal.type? s = none ↔ ∀ ty, Literal.parse? s ty = none := by
  constructor
  · intro h ty
    unfold type? at h
    split_ifs at h with hl hi hr
    rw [Option.not_isSome_iff_eq_none] at hl hi hr
    cases ty with
    | integer => rw [parse?, hi, Option.map_none]
    | logical => rw [parse?, hl, Option.map_none]
    | real => rw [parse?, hr, Option.map_none]
  · intro h
    have hi : integer? s.toList = none := Option.map_eq_none_iff.mp (h .integer)
    have hl : logical? s = none := Option.map_eq_none_iff.mp (h .logical)
    have hr : real? s.toList = none := Option.map_eq_none_iff.mp (h .real)
    simp [type?, hi, hl, hr]

/-- A name that can stand for nothing but a variable: well formed, no keyword, and no literal of any type. -/
structure Name.IsPlain (s : String) : Prop where
  wellFormed : isWellFormed s = true
  unreserved : isReserved s = false
  no_literal : ∀ ty, Literal.parse? s ty = none

instance (s : String) : Decidable (Name.IsPlain s) :=
  decidable_of_iff (Name.isWellFormed s = true ∧ Name.isReserved s = false ∧ Literal.type? s = none)
    ⟨fun ⟨hw, hr, hl⟩ => ⟨hw, hr, Literal.type?_eq_none_iff.mp hl⟩,
      fun h => ⟨h.wellFormed, h.unreserved, Literal.type?_eq_none_iff.mpr h.no_literal⟩⟩

/-- A one-to-one map of tokens that replaces plain names by plain names and no other token. -/
structure Renaming where
  toFun : String → String
  injective : Function.Injective toFun
  plain : ∀ s, Name.IsPlain s → Name.IsPlain (toFun s)
  fixed : ∀ s, ¬ Name.IsPlain s → toFun s = s

instance : CoeFun Renaming fun _ => String → String := ⟨Renaming.toFun⟩

theorem Operator.ofText?_of_isPlain {s : String} (h : Name.IsPlain s) : ofText? s = none := by
  cases hs : ofText? s with
  | none => rfl
  | some op =>
    rw [ofText?_eq_some_iff] at hs
    subst hs
    exact absurd h (by cases op <;> decide)

/-- A plain name is no comment. -/
theorem Name.IsPlain.isPrefixOf_toList {s : String} (h : IsPlain s) : ['/', '/'].isPrefixOf s.toList = false := by
  have hw := h.wellFormed
  unfold isWellFormed at hw
  cases hs : s.toList with
  | nil => rfl
  | cons c cs =>
    have hc : c ≠ '/' := by
      rintro rfl
      simp [hs, isNameChar] at hw
    simp [List.isPrefixOf, hc.symm]

namespace Renaming

variable (r : Renaming)

@[simp] theorem apply_eq_iff {s t : String} : r s = r t ↔ s = t :=
  r.injective.eq_iff

/-- What is the same for all plain names is not changed by a renaming. -/
theorem congr {β : Type} {f : String → β} {b : β} (h : ∀ s, Name.IsPlain s → f s = b) (s : String) :
    f (r s) = f s := by
  by_cases hs : Name.IsPlain s
  · rw [h _ (r.plain s hs), h s hs]
  · rw [r.fixed s hs]

@[simp] theorem keyword_apply (s : String) : Keyword.ofText? (r s) = Keyword.ofText? s :=
  r.congr (fun _ h => Option.isNone_iff_eq_none.mp (by simpa [Name.isReserved] using h.unreserved)) s

@[simp] theorem operator_apply (s : String) : Operator.ofText? (r s) = Operator.ofText? s :=
  r.congr (fun _ h => Operator.ofText?_of_isPlain h) s

@[simp] theorem isWellFormed_apply (s : String) : Name.isWellFormed (r s) = Name.isWellFormed s :=
  r.congr (fun _ h => h.wellFormed) s

@[simp] theorem isReserved_apply (s : String) : Name.isReserved (r s) = Name.isReserved s :=
  r.congr (fun _ h => h.unreserved) s

@[simp] theorem parse?_apply (s : String) (ty : Ty) : Literal.parse? (r s) ty = Literal.parse? s ty :=
  r.congr (f := fun s => Literal.parse? s ty) (fun _ h => h.no_literal ty) s

@[simp] theorem type?_apply (s : String) : Literal.type? (r s) = Literal.type? s :=
  r.congr (fun _ h => Literal.type?_eq_none_iff.mpr h.no_literal) s

@[simp] theorem isPrefixOf_apply (s : String) : ['/', '/'].isPrefixOf (r s).toList = ['/', '/'].isPrefixOf s.toList :=
  r.congr (f := fun s => ['/', '/'].isPrefixOf s.toList) (fun _ h => h.isPrefixOf_toList) s

theorem apply_operator (op : Operator) : r op.text = op.text :=
  r.fixed _ (by cases op <;> decide)

theorem apply_keyword (k : Keyword) : r k.text = k.text :=
  r.fixed _ (by cases k <;> decide)

theorem apply_eq_equals_iff {s : String} : r s = "=" ↔ s = "=" := by
  have h : r "=" = "=" := r.fixed _ (by decide)
  constructor
  · intro hs
    rw [← h] at hs
    exact r.injective hs
  · rintro rfl
    exact h

end Renaming

/-! ### Computations -/

/-- Causes that are the same but for the names that they quote.  Where the square root is refused, the text of a value
is quoted, which no renaming touches. -/
inductive Cause.Renamed (r : Renaming) : Cause → Cause → Prop
  | duplicateName (name : String) : Renamed r (.duplicateName name) (.duplicateName (r name))
  | reservedName (name : String) : Renamed r (.reservedName name) (.reservedName (r name))
  | invalidCharacter (name : String) : Renamed r (.invalidCharacter name) (.invalidCharacter (r name))
  | undeclared (name : String) : Renamed r (.undeclared name) (.undeclared (r name))
  | unresolvedSymbol (symbol : String) : Renamed r (.unresolvedSymbol symbol) (.unresolvedSymbol (r symbol))
  | typeMismatch (name : String) : Renamed r (.typeMismatch name) (.typeMismatch (r name))
  | typesIncompatible : Renamed r .typesIncompatible .typesIncompatible
  | invalidOperator (symbol : String) : Renamed r (.invalidOperator symbol) (.invalidOperator (r symbol))
  | invalidArgument (symbol : String) : Renamed r (.invalidArgument symbol) (.invalidArgument (r symbol))
  | invalidRadicand (x : Float) : Renamed r (.invalidArgument (realText x)) (.invalidArgument (realText x))
  | divisionByZero : Renamed r .divisionByZero .divisionByZero
  | overflow : Renamed r .overflow .overflow
  | unrecognizedCommand (tokens : List String) :
      Renamed r (.unrecognizedCommand (" ".intercalate tokens)) (.unrecognizedCommand (" ".intercalate (tokens.map r)))
  | unexpectedEndOfScope : Renamed r .unexpectedEndOfScope .unexpectedEndOfScope
  | elseWithoutIf : Renamed r .elseWithoutIf .elseWithoutIf
  | unterminatedScope : Renamed r .unterminatedScope .unterminatedScope
  | outOfMemory (detail : String) : Renamed r (.outOfMemory detail) (.outOfMemory detail)
  | stepLimitExceeded (limit : String) : Renamed r (.stepLimitExceeded limit) (.stepLimitExceeded limit)

theorem Cause.Renamed.name_eq {r : Renaming} {cause cause' : Cause} (h : cause.Renamed r cause') :
    cause'.name = cause.name := by
  cases h <;> rfl

/-- Two computations agree: the result of the second is that of the first under `g`, or both fail with the same cause
but for names. -/
inductive Agree {α : Type} (r : Renaming) (g : α → α) : Except Cause α → Except Cause α → Prop
  | ok (a : α) : Agree r g (.ok a) (.ok (g a))
  | error {cause cause' : Cause} (h : cause.Renamed r cause') : Agree r g (.error cause) (.error cause')

section Computations

variable {α β : Type} {r : Renaming} {g : α → α} {k : β → β}

theorem Agree.bind {x x' : Except Cause α} {f f' : α → Except Cause β} (h : Agree r g x x')
    (hf : ∀ a, Agree r k (f a) (f' (g a))) : Agree r k (x >>= f) (x' >>= f') := by
  cases h with
  | ok a => exact hf a
  | error h => exact .error h

/-- The two ways in which computations agree. -/
theorem Agree.cases {x x' : Except Cause α} (h : Agree r g x x') :
    (∃ a, x = .ok a ∧ x' = .ok (g a)) ∨
    ∃ cause cause', x = .error cause ∧ x' = .error cause' ∧ cause.Renamed r cause' := by
  cases h with
  | ok a => exact Or.inl ⟨a, rfl, rfl⟩
  | error h => exact Or.inr ⟨_, _, rfl, rfl, h⟩

theorem Agree.ite {p q : Prop} [Decidable p] [Decidable q] {x x' y y' : Except Cause α} (hpq : p ↔ q)
    (hx : Agree r g x x') (hy : Agree r g y y') : Agree r g (if p then x else y) (if q then x' else y') := by
  by_cases h : p
  · rw [if_pos h, if_pos (hpq.mp h)]
    exact hx
  · rw [if_neg h, if_neg (mt hpq.mpr h)]
    exact hy

end Computations

/-! ### Values -/

namespace Value

variable {r : Renaming}

theorem agree_ofInt (n : Int) : Agree r id (ofInt n) (ofInt n) := by
  unfold ofInt
  split
  · exact .ok _
  · exact .error .overflow

theorem agree_invalidOperator (op : Operator) :
    Agree r (id : Value → Value) (.error (.invalidOperator op.text)) (.error (.invalidOperator op.text)) := by
  have h := Cause.Renamed.invalidOperator (r := r) op.text
  rw [r.apply_operator] at h
  exact .error h

/-- Arithmetic agrees with itself if its two halves do. -/
theorem agree_arithmetic (op : Operator) {whole : Int → Int → Except Cause Int}
    {fractional : Float → Float → Except Cause Float} (hw : ∀ m n, Agree r id (whole m n) (whole m n))
    (hf : ∀ x y, Agree r id (fractional x y) (fractional x y)) (v w : Value) :
    Agree r id (arithmetic op whole fractional v w) (arithmetic op whole fractional v w) := by
  unfold arithmetic
  split
  · exact (hw _ _).bind agree_ofInt
  · exact (hf _ _).bind fun x => .ok (Value.real x)
  · exact agree_invalidOperator op
  · exact .error .typesIncompatible

theorem agree_compare (v : Value) (op : Operator) (w : Value) :
    Agree r id (v.compare op w) (v.compare op w) := by
  unfold compare
  dsimp only
  split
  · exact .ok _
  · exact agree_invalidOperator op
  · rename_i cause h
    refine .error ?_
    split at h
    · cases h
    · cases h
    · split at h <;> cases h
    · cases h
      exact .typesIncompatible

theorem agree_apply (v : Value) (op : Operator) (w : Value) : Agree r id (v.apply op w) (v.apply op w) := by
  have hdivide : ∀ {α : Type} (b : Prop) [Decidable b] (a : α),
      Agree r id (if b then .error .divisionByZero else .ok a : Except Cause α)
        (if b then .error .divisionByZero else .ok a) := by
    intro α b _ a
    split
    · exact .error .divisionByZero
    · exact .ok _
  unfold apply
  split
  · exact agree_arithmetic .plus (fun m n => .ok (m + n)) (fun x y => .ok (x + y)) v w
  · exact agree_arithmetic .minus (fun m n => .ok (m - n)) (fun x y => .ok (x - y)) v w
  · exact agree_arithmetic .times (fun m n => .ok (m * n)) (fun x y => .ok (x * y)) v w
  · exact agree_arithmetic .divide (fun _ _ => hdivide _ _) (fun _ _ => hdivide _ _) v w
  · unfold and
    split
    · exact .ok _
    · exact agree_invalidOperator .and_
  · unfold or
    split
    · exact .ok _
    · exact agree_invalidOperator .or_
  · exact agree_compare v _ w

theorem agree_not (v : Value) : Agree r id v.not v.not := by
  unfold not
  split
  · exact .ok _
  · have h := Cause.Renamed.invalidOperator (r := r) Keyword.not_.text
    rw [r.apply_keyword] at h
    exact .error h

theorem agree_sqrt (v : Value) : Agree r id v.sqrt v.sqrt := by
  unfold sqrt
  split
  · split
    · exact .error (.invalidRadicand _)
    · exact .ok _
  · exact .error .typesIncompatible

theorem agree_convert (v : Value) (ty : Ty) : Agree r id (v.convert ty) (v.convert ty) := by
  unfold convert
  split
  · unfold toInteger
    split
    · exact .ok _
    · exact .ok _
    · split
      · exact agree_ofInt _
      · exact .error .overflow
  · exact .ok _
  · exact .ok _

end Value

/-! ### Tables -/

/-- The variable under another name. -/
def Variable.rename (r : Renaming) (v : Variable) : Variable :=
  ⟨r v.name, v.scope, v.value⟩

namespace Variables

/-- The table with other names. -/
def rename (r : Renaming) (vars : Variables) : Variables :=
  ⟨vars.newestFirst.map (Variable.rename r)⟩

variable {r : Renaming} (vars : Variables)

/-- A renamed table has the same variable under the new name. -/
@[simp] theorem find?_rename (name : String) :
    (vars.rename r).find? (r name) = (vars.find? name).map (Variable.rename r) := by
  have hname : (fun v : Variable => v.name == r name) ∘ Variable.rename r = fun v => v.name == name := by
    funext v
    simp [Variable.rename]
  rw [find?, rename, List.find?_map, hname]
  rfl

theorem replaceValue_rename (name : String) (value : Value) (l : List Variable) :
    replaceValue (r name) value (l.map (Variable.rename r)) = (replaceValue name value l).map (Variable.rename r) := by
  induction l with
  | nil => rfl
  | cons v l ih =>
    rw [List.map_cons, replaceValue, replaceValue, ih]
    by_cases h : v.name = name
    · simp [Variable.rename, h]
    · simp [Variable.rename, h]

theorem dispose_rename (depth : Nat) : (vars.rename r).dispose depth = (vars.dispose depth).rename r := by
  rw [dispose, dispose, rename, rename, List.dropWhile_map]
  rfl

theorem agree_declare (name : String) (ty : Ty) (scope : Nat) :
    Agree r (rename r) (vars.declare name ty scope) ((vars.rename r).declare (r name) ty scope) := by
  unfold declare
  rw [find?_rename, Option.isSome_map, r.isReserved_apply, r.isWellFormed_apply]
  split
  · exact .error (.duplicateName name)
  · split
    · exact .error (.reservedName name)
    · split
      · exact .error (.invalidCharacter name)
      · exact .ok _

theorem agree_fetch (name : String) :
    Agree r (Variable.rename r) (vars.fetch name) ((vars.rename r).fetch (r name)) := by
  unfold fetch
  rw [find?_rename]
  cases vars.find? name with
  | none => exact .error (.undeclared name)
  | some v => exact .ok v

theorem agree_store (name : String) (value : Value) :
    Agree r (rename r) (vars.store name value) ((vars.rename r).store (r name) value) := by
  unfold store
  rw [find?_rename]
  cases vars.find? name with
  | none => exact .error (.undeclared name)
  | some v =>
    have hupdate : (vars.rename r).update (r name) value = (vars.update name value).rename r :=
      congrArg Variables.mk (replaceValue_rename name value vars.newestFirst)
    rw [hupdate]
    exact .ite Iff.rfl (.ok _) (.error (.typeMismatch name))

/-! ### Expressions -/

theorem agree_resolve (symbol : String) (ty : Ty) :
    Agree r id (vars.resolve symbol ty) ((vars.rename r).resolve (r symbol) ty) := by
  unfold resolve
  rw [find?_rename, r.parse?_apply]
  cases vars.find? symbol with
  | some v => exact .ite Iff.rfl (.ok v.value) (.error (.typeMismatch symbol))
  | none =>
    cases Literal.parse? symbol ty with
    | some value => exact .ok value
    | none => exact .error (.unresolvedSymbol symbol)

theorem infer?_rename (symbol : String) : (vars.rename r).infer? (r symbol) = vars.infer? symbol := by
  unfold infer?
  rw [find?_rename, r.type?_apply]
  cases vars.find? symbol <;> rfl

theorem agree_resolveAny (symbol : String) :
    Agree r id (vars.resolveAny symbol) ((vars.rename r).resolveAny (r symbol)) := by
  unfold resolveAny
  rw [infer?_rename]
  cases vars.infer? symbol with
  | some ty => exact vars.agree_resolve symbol ty
  | none => exact .error (.unresolvedSymbol symbol)

theorem agree_operandType (left right : String) :
    Agree r id (vars.operandType left right) ((vars.rename r).operandType (r left) (r right)) := by
  unfold operandType
  rw [find?_rename, find?_rename, r.type?_apply, r.type?_apply]
  cases vars.find? left with
  | some v => exact .ok v.ty
  | none =>
    cases vars.find? right with
    | some v => exact .ok v.ty
    | none =>
      simp only [Option.map_none]
      split
      · exact .ok _
      · exact .ok _
      · exact .error (.unresolvedSymbol left)

theorem agree_evaluate (left operator right : String) (ty : Ty) :
    Agree r id (vars.evaluate left operator right ty)
      ((vars.rename r).evaluate (r left) (r operator) (r right) ty) := by
  refine (vars.agree_resolve left ty).bind fun v => (vars.agree_resolve right ty).bind fun w => ?_
  rw [r.operator_apply]
  cases Operator.ofText? operator with
  | some op => exact v.agree_apply op w
  | none => exact .error (.invalidOperator operator)

theorem agree_unary (operator symbol : String) :
    Agree r id (vars.unary operator symbol) ((vars.rename r).unary (r operator) (r symbol)) := by
  unfold unary
  rw [r.keyword_apply]
  split
  · exact (vars.agree_resolve symbol .logical).bind Value.agree_not
  · exact (vars.agree_resolve symbol .real).bind Value.agree_sqrt
  · split
    · exact (vars.agree_resolveAny symbol).bind fun v => v.agree_convert _
    · exact .error (.invalidOperator operator)
  · exact .error (.invalidOperator operator)

theorem agree_copied (symbol : String) (ty : Ty) :
    Agree r id (vars.copied symbol ty) ((vars.rename r).copied (r symbol) ty) := by
  unfold copied
  rw [find?_rename, r.parse?_apply]
  cases vars.find? symbol with
  | some v => exact .ite Iff.rfl (.ok v.value) (.error .typesIncompatible)
  | none =>
    cases Literal.parse? symbol ty with
    | some value => exact .ok value
    | none => exact .error (.unresolvedSymbol symbol)

theorem agree_assignedOperandType (left operator right : String) (target : Ty) :
    Agree r id (vars.assignedOperandType left operator right target)
      ((vars.rename r).assignedOperandType (r left) (r operator) (r right) target) := by
  unfold assignedOperandType
  rw [r.operator_apply]
  split
  · split
    · exact vars.agree_operandType left right
    · split
      · exact .ok _
      · exact .ok _
  · exact .ok _

end Variables

/-- The expression with other names. -/
def Expression.rename (r : Renaming) : Expression → Expression
  | symbol a => symbol (r a)
  | unary op a => unary (r op) (r a)
  | binary left op right => binary (r left) (r op) (r right)

theorem Expression.ofTokens?_map (r : Renaming) (tokens : List String) :
    ofTokens? (tokens.map r) = (ofTokens? tokens).map (rename r) := by
  match tokens with
  | [] => rfl
  | [_] => rfl
  | [_, _] => rfl
  | [_, _, _] => rfl
  | _ :: _ :: _ :: _ :: _ => rfl

namespace Variables

variable {r : Renaming} (vars : Variables)

theorem agree_computed (target : Ty) (e : Expression) :
    Agree r id (vars.computed target e) ((vars.rename r).computed target (e.rename r)) := by
  cases e with
  | symbol a => exact vars.agree_copied a target
  | unary op a => exact vars.agree_unary op a
  | binary left op right =>
    exact (vars.agree_assignedOperandType left op right target).bind fun ty => vars.agree_evaluate left op right ty

theorem agree_assigned (target : Ty) (e : Expression) :
    Agree r id (vars.assigned target e) ((vars.rename r).assigned target (e.rename r)) := by
  refine (vars.agree_computed target e).bind fun value => ?_
  rw [id]
  split
  · exact .ok value
  · exact .error .typesIncompatible

theorem agree_tested (e : Expression) : Agree r id (vars.tested e) ((vars.rename r).tested (e.rename r)) := by
  cases e with
  | symbol a => exact vars.agree_resolve a .logical
  | unary op a =>
    rw [Expression.rename, tested, tested, r.keyword_apply]
    split
    · exact (vars.agree_resolve a .logical).bind Value.agree_not
    · exact .error (.invalidOperator op)
  | binary left op right =>
    rw [Expression.rename, tested, tested, r.operator_apply]
    split
    · exact vars.agree_evaluate left op right .logical
    · exact vars.agree_evaluate left op right .logical
    · exact (vars.agree_operandType left right).bind fun ty => vars.agree_evaluate left op right ty

theorem agree_condition (e : Expression) :
    Agree r id (vars.condition e) ((vars.rename r).condition (e.rename r)) := by
  refine (vars.agree_tested e).bind fun value => ?_
  cases value with
  | logical b => exact .ok b
  | integer n => exact .error .typesIncompatible
  | real x => exact .error .typesIncompatible

theorem agree_levels (symbol : String) :
    Agree r id (vars.levels symbol) ((vars.rename r).levels (r symbol)) := by
  refine (vars.agree_resolve symbol .integer).bind fun value => ?_
  cases value with
  | integer n =>
    simp only [id]
    split
    · exact .ok _
    · exact .error (.invalidArgument symbol)
  | logical b => exact .error (.invalidArgument symbol)
  | real x => exact .error (.invalidArgument symbol)

end Variables

end LineScript
