import LineScript.Proofs.Transitions
import Mathlib.Algebra.Group.Int.Defs

/-!
# LineScript.Proofs.Evaluation — values of expressions

* `Variables.ty_of_resolve`: a symbol that is resolved at a type has a value of that type.
* `Variables.evaluate_of_resolve`, `evaluate_eq_ok_iff`: an operator between two symbols, once these are settled.
* `Value.IsExact`: the result of a computation with whole numbers, which is exact or an overflow.
* `Value.isExact_add`, `isExact_sub`, `isExact_mul`, `div_whole`, `compare_whole`: the operators on whole numbers.
* `Variables.whole_numbers_exact`: expressions over whole numbers, with the order in which their errors are found.
-/

namespace LineScript

/-! ### Symbols and operators -/

theorem Literal.ty_of_parse? {s : String} {ty : Ty} {value : Value} (h : parse? s ty = some value) :
    value.ty = ty := by
  cases ty with
  | integer =>
    obtain ⟨n, -, rfl⟩ := Option.map_eq_some_iff.mp h
    rfl
  | logical =>
    obtain ⟨b, -, rfl⟩ := Option.map_eq_some_iff.mp h
    rfl
  | real =>
    obtain ⟨x, -, rfl⟩ := Option.map_eq_some_iff.mp h
    rfl

theorem Value.exists_integer {value : Value} (h : value.ty = .integer) : ∃ n, value = integer n := by
  cases value with
  | integer n => exact ⟨n, rfl⟩
  | logical b => cases h
  | real x => cases h

namespace Variables

variable {vars : Variables} {symbol left operator right : String} {ty : Ty} {value l r : Value}

/-- A symbol resolves to a live variable of the type, or else to a literal of the type. -/
theorem resolve_eq_ok_iff :
    vars.resolve symbol ty = .ok value ↔
      (∃ v, vars.find? symbol = some v ∧ v.ty = ty ∧ v.value = value) ∨
        (vars.find? symbol = none ∧ Literal.parse? symbol ty = some value) := by
  unfold resolve
  cases hf : vars.find? symbol with
  | some v => by_cases hty : v.ty = ty <;> simp [hty]
  | none => cases hp : Literal.parse? symbol ty <;> simp

theorem ty_of_resolve (h : vars.resolve symbol ty = .ok value) : value.ty = ty := by
  rcases resolve_eq_ok_iff.mp h with ⟨v, -, hty, rfl⟩ | ⟨-, hp⟩
  · exact hty
  · exact Literal.ty_of_parse? hp

theorem evaluate_of_left_error {cause : Cause} (hl : vars.resolve left ty = .error cause) :
    vars.evaluate left operator right ty = .error cause := by
  rw [evaluate, hl, error_bind]

theorem evaluate_of_right_error {cause : Cause} (hl : vars.resolve left ty = .ok l)
    (hr : vars.resolve right ty = .error cause) : vars.evaluate left operator right ty = .error cause := by
  rw [evaluate, hl, ok_bind, hr, error_bind]

/-- The operator is looked up when both symbols are settled. -/
theorem evaluate_of_resolve (hl : vars.resolve left ty = .ok l) (hr : vars.resolve right ty = .ok r) :
    vars.evaluate left operator right ty =
      match Operator.ofText? operator with
      | some op => l.apply op r
      | none => .error (.invalidOperator operator) := by
  rw [evaluate, hl, ok_bind, hr, ok_bind]
  rfl

theorem evaluate_of_operator (hl : vars.resolve left ty = .ok l) (hr : vars.resolve right ty = .ok r)
    (op : Operator) : vars.evaluate left op.text right ty = l.apply op r := by
  rw [evaluate_of_resolve hl hr, Operator.ofText?_text]

theorem evaluate_of_unknown (hl : vars.resolve left ty = .ok l) (hr : vars.resolve right ty = .ok r)
    (hop : ∀ op : Operator, operator ≠ op.text) :
    vars.evaluate left operator right ty = .error (.invalidOperator operator) := by
  have hnone : Operator.ofText? operator = none :=
    Option.eq_none_iff_forall_ne_some.mpr fun op h => hop op (Operator.ofText?_eq_some_iff.mp h)
  rw [evaluate_of_resolve hl hr, hnone]

theorem evaluate_eq_ok_iff :
    vars.evaluate left operator right ty = .ok value ↔
      ∃ l r op, vars.resolve left ty = .ok l ∧ vars.resolve right ty = .ok r ∧ Operator.ofText? operator = some op ∧
        l.apply op r = .ok value := by
  constructor
  · intro h
    obtain ⟨l, hl, h⟩ := bind_eq_ok_iff.mp h
    obtain ⟨r, hr, h⟩ := bind_eq_ok_iff.mp h
    cases hop : Operator.ofText? operator with
    | none =>
      rw [hop] at h
      cases h
    | some op =>
      rw [hop] at h
      exact ⟨l, r, op, hl, hr, rfl, h⟩
  · rintro ⟨l, r, op, hl, hr, hop, h⟩
    rw [evaluate_of_resolve hl hr, hop]
    exact h

end Variables

/-! ### Whole numbers -/

namespace Value

/-- A result that is the whole number `n` where `n` has 32 bits, and an overflow where it has not. -/
def IsExact (n : Int) (result : Except Cause Value) : Prop :=
  (-2 ^ 31 ≤ n ∧ n ≤ 2 ^ 31 - 1 → ∃ m : Int32, result = .ok (integer m) ∧ m.toInt = n) ∧
    (¬ (-2 ^ 31 ≤ n ∧ n ≤ 2 ^ 31 - 1) → result = .error .overflow)

theorem isExact_ofInt (n : Int) : IsExact n (ofInt n) := by
  constructor
  · rintro ⟨hlow, hhigh⟩
    exact ⟨Int32.ofInt n, if_pos (by omega), Int32.toInt_ofInt_of_le hlow (by omega)⟩
  · intro hn
    exact if_neg (by omega)

theorem isExact_add (a b : Int32) : IsExact (a.toInt + b.toInt) (add (integer a) (integer b)) :=
  isExact_ofInt _

theorem isExact_sub (a b : Int32) : IsExact (a.toInt - b.toInt) (sub (integer a) (integer b)) :=
  isExact_ofInt _

theorem isExact_mul (a b : Int32) : IsExact (a.toInt * b.toInt) (mul (integer a) (integer b)) :=
  isExact_ofInt _

/-- The one quotient of two numbers of 32 bits that has more is that of the least number by minus one. -/
theorem tdiv_fits_iff (a b : Int32) :
    -2 ^ 31 ≤ a.toInt.tdiv b.toInt ∧ a.toInt.tdiv b.toInt ≤ 2 ^ 31 - 1 ↔ ¬ (a.toInt = -2 ^ 31 ∧ b.toInt = -1) := by
  have hlow := a.le_toInt
  have hhigh := a.toInt_lt
  constructor
  · rintro ⟨-, hq⟩ ⟨ha, hb⟩
    rw [ha, hb] at hq
    exact absurd hq (by decide)
  · intro hno
    have habs : (a.toInt.tdiv b.toInt).natAbs = a.toInt.natAbs / b.toInt.natAbs := Int.natAbs_tdiv _ _
    -- a divisor of 1 or -1 keeps the size of the dividend, and a larger one at least halves it
    rcases Nat.lt_or_ge b.toInt.natAbs 2 with hsmall | hlarge
    · obtain hb | hb | hb : b.toInt = 0 ∨ b.toInt = 1 ∨ b.toInt = -1 := by omega
      · rw [hb, Int.tdiv_zero]
        omega
      · rw [hb, Int.tdiv_one]
        omega
      · rw [hb, Int.tdiv_neg, Int.tdiv_one]
        omega
    · have hhalf : a.toInt.natAbs / b.toInt.natAbs ≤ a.toInt.natAbs / 2 := Nat.div_le_div_left hlarge (by decide)
      omega

/-- The quotient is cut toward zero.  It fails for a divisor of zero, and for the one quotient that is too large. -/
theorem div_whole (a b : Int32) :
    (div (integer a) (integer b) = .error .divisionByZero ↔ b.toInt = 0) ∧
    (div (integer a) (integer b) = .error .overflow ↔ a.toInt = -2 ^ 31 ∧ b.toInt = -1) ∧
    (b.toInt ≠ 0 → ¬ (a.toInt = -2 ^ 31 ∧ b.toInt = -1) →
      ∃ q : Int32, div (integer a) (integer b) = .ok (integer q) ∧ q.toInt = a.toInt.tdiv b.toInt) := by
  by_cases hb : b.toInt = 0
  · have hdiv : div (integer a) (integer b) = .error .divisionByZero := by
      simp only [div, arithmetic, if_pos hb, error_bind]
    simp [hdiv, hb]
  · have hdiv : div (integer a) (integer b) = ofInt (a.toInt.tdiv b.toInt) := by
      simp only [div, arithmetic, if_neg hb, ok_bind]
    obtain ⟨hfits, hover⟩ := isExact_ofInt (a.toInt.tdiv b.toInt)
    rw [tdiv_fits_iff] at hfits hover
    rw [hdiv]
    by_cases hmin : a.toInt = -2 ^ 31 ∧ b.toInt = -1
    · rw [hover (fun hno => hno hmin)]
      exact ⟨by simp [hb], iff_of_true rfl hmin, fun _ hno => absurd hmin hno⟩
    · obtain ⟨q, hq, hval⟩ := hfits hmin
      rw [hq]
      exact ⟨by simp [hb], iff_of_false (by simp) hmin, fun _ _ => ⟨q, rfl, hval⟩⟩

/-- Comparisons of whole numbers are those of their values. -/
theorem compare_whole (a b : Int32) :
    compare (integer a) .equal (integer b) = .ok (logical (decide (a.toInt = b.toInt))) ∧
    compare (integer a) .notEqual (integer b) = .ok (logical (decide (a.toInt ≠ b.toInt))) ∧
    compare (integer a) .less (integer b) = .ok (logical (decide (a.toInt < b.toInt))) ∧
    compare (integer a) .lessEqual (integer b) = .ok (logical (decide (a.toInt ≤ b.toInt))) ∧
    compare (integer a) .greater (integer b) = .ok (logical (decide (b.toInt < a.toInt))) ∧
    compare (integer a) .greaterEqual (integer b) = .ok (logical (decide (b.toInt ≤ a.toInt))) := by
  have heq : (a == b) = decide (a.toInt = b.toInt) := by
    rw [Bool.beq_eq_decide_eq]
    exact decide_eq_decide.mpr Int32.toInt_inj.symm
  simp [compare, holds?, heq, Int32.lt_iff_toInt_lt, Int32.le_iff_toInt_le]

end Value

namespace Variables

/-- **Expressions over whole numbers.**  The left symbol is settled first, then the right one, then the operator is
looked up, and only then a result is computed: a sum, difference or product is exact or an overflow, a quotient is cut
toward zero, and comparisons follow the order of the numbers. -/
theorem whole_numbers_exact (vars : Variables) (left operator right : String) {result : Except Cause Value}
    (hresult : vars.evaluate left operator right .integer = result) :
    (∀ cause, vars.resolve left .integer = .error cause → result = .error cause) ∧
    (∀ l cause, vars.resolve left .integer = .ok l → vars.resolve right .integer = .error cause →
      result = .error cause) ∧
    (∀ l r, vars.resolve left .integer = .ok l → vars.resolve right .integer = .ok r →
      ∃ a b : Int32, l = .integer a ∧ r = .integer b ∧
        ((∀ op : Operator, operator ≠ op.text) ∨ operator = "and" ∨ operator = "or" →
          result = .error (.invalidOperator operator)) ∧
        (operator = "+" → Value.IsExact (a.toInt + b.toInt) result) ∧
        (operator = "-" → Value.IsExact (a.toInt - b.toInt) result) ∧
        (operator = "*" → Value.IsExact (a.toInt * b.toInt) result) ∧
        (operator = "/" →
          (result = .error .divisionByZero ↔ b.toInt = 0) ∧
          (result = .error .overflow ↔ a.toInt = -2 ^ 31 ∧ b.toInt = -1) ∧
          (b.toInt ≠ 0 → ¬ (a.toInt = -2 ^ 31 ∧ b.toInt = -1) →
            ∃ q : Int32, result = .ok (.integer q) ∧ q.toInt = a.toInt.tdiv b.toInt)) ∧
        (operator = "==" → result = .ok (.logical (decide (a.toInt = b.toInt)))) ∧
        (operator = "!=" → result = .ok (.logical (decide (a.toInt ≠ b.toInt)))) ∧
        (operator = "<" → result = .ok (.logical (decide (a.toInt < b.toInt)))) ∧
        (operator = "<=" → result = .ok (.logical (decide (a.toInt ≤ b.toInt)))) ∧
        (operator = ">" → result = .ok (.logical (decide (b.toInt < a.toInt)))) ∧
        (operator = ">=" → result = .ok (.logical (decide (b.toInt ≤ a.toInt))))) := by
  subst hresult
  refine ⟨fun cause hl => evaluate_of_left_error hl, fun l cause hl hr => evaluate_of_right_error hl hr, ?_⟩
  intro l r hl hr
  obtain ⟨a, rfl⟩ := Value.exists_integer (ty_of_resolve hl)
  obtain ⟨b, rfl⟩ := Value.exists_integer (ty_of_resolve hr)
  have happly := evaluate_of_operator hl hr
  obtain ⟨hequal, hnotEqual, hless, hlessEqual, hgreater, hgreaterEqual⟩ := Value.compare_whole a b
  refine ⟨a, b, rfl, rfl, ?_, ?_, ?_, ?_, ?_, ?_, ?_, ?_, ?_, ?_, ?_⟩
  · rintro (hop | rfl | rfl)
    · exact evaluate_of_unknown hl hr hop
    · exact happly .and_
    · exact happly .or_
  · rintro rfl
    exact happly .plus ▸ Value.isExact_add a b
  · rintro rfl
    exact happly .minus ▸ Value.isExact_sub a b
  · rintro rfl
    exact happly .times ▸ Value.isExact_mul a b
  · rintro rfl
    exact happly .divide ▸ Value.div_whole a b
  · rintro rfl
    exact (happly .equal).trans hequal
  · rintro rfl
    exact (happly .notEqual).trans hnotEqual
  · rintro rfl
    exact (happly .less).trans hless
  · rintro rfl
    exact (happly .lessEqual).trans hlessEqual
  · rintro rfl
    exact (happly .greater).trans hgreater
  · rintro rfl
    exact (happly .greaterEqual).trans hgreaterEqual

/-- The least whole number. -/
def leastNumber : Variables :=
  ⟨[⟨"x", 0, .integer (-2147483648)⟩]⟩

theorem whole_numbers_exact_leastNumber :
    leastNumber.evaluate "x" "/" "-1" .integer = .error .overflow ∧
    leastNumber.evaluate "x" "/" "0" .integer = .error .divisionByZero ∧
    (∃ q : Int32, leastNumber.evaluate "x" "/" "7" .integer = .ok (.integer q) ∧ q.toInt = -306783378) ∧
    leastNumber.evaluate "y" "/" "0" .integer = .error (.unresolvedSymbol "y") := by
  obtain ⟨-, -, hminus⟩ := whole_numbers_exact leastNumber "x" "/" "-1" rfl
  obtain ⟨-, -, hzero⟩ := whole_numbers_exact leastNumber "x" "/" "0" rfl
  obtain ⟨-, -, hseven⟩ := whole_numbers_exact leastNumber "x" "/" "7" rfl
  obtain ⟨hleft, -, -⟩ := whole_numbers_exact leastNumber "y" "/" "0" rfl
  have hx : leastNumber.resolve "x" .integer = .ok (.integer (-2147483648)) := rfl
  refine ⟨?_, ?_, ?_, hleft _ rfl⟩
  · obtain ⟨a, b, ha, hb, -, -, -, -, hdiv, -⟩ := hminus _ (.integer (-1)) hx rfl
    cases ha
    cases hb
    exact (hdiv rfl).2.1.mpr (by decide)
  · obtain ⟨a, b, ha, hb, -, -, -, -, hdiv, -⟩ := hzero _ (.integer 0) hx rfl
    cases ha
    cases hb
    exact (hdiv rfl).1.mpr (by decide)
  · obtain ⟨a, b, ha, hb, -, -, -, -, hdiv, -⟩ := hseven _ (.integer 7) hx rfl
    cases ha
    cases hb
    exact (hdiv rfl).2.2 (by decide) (by decide)

end Variables

end LineScript
