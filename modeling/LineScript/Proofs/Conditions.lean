import LineScript.Proofs.Numerals

/-!
# LineScript.Proofs.Conditions — conditions, and what they share with assignments

A condition and the right side of an assignment choose the type of their operands in different ways.  For a truth value
the choice makes no difference.

* `Variables.condition_eq_ok_iff`, `computed_logical_iff`: a condition is true or false exactly when the assignment to a
  logical variable computes that truth value.
* `Machine.assign_of_condition`, `assign_of_condition_error`: what the assignment does then.
* `Machine.conditions_agree_with_assignments`: both, and that `if` and `while` take the same way for the condition as for
  the variable.
* `Operator.mirror`: a comparison with its sides exchanged.  `Value.compare_mirror`, `Variables.operandType_mirror`: it
  compares the same values at the same type.
* `Machine.comparisons_mirror`: so it has the same result, in conditions and in assignments.
-/

namespace LineScript

/-! ### Operators that give truth values -/

/-- Operators whose results are truth values. -/
def Operator.isLogical (op : Operator) : Prop :=
  op.isComparison = true ∨ op = .and_ ∨ op = .or_

instance (op : Operator) : Decidable op.isLogical :=
  inferInstanceAs (Decidable (_ ∨ _ ∨ _))

namespace Value

theorem ofInt_ne_logical (n : Int) (b : Bool) : ofInt n ≠ .ok (logical b) := by
  unfold ofInt
  split
  · intro h
    cases h
  · intro h
    cases h

/-- Arithmetic never gives a truth value. -/
theorem arithmetic_ne_logical (op : Operator) (whole : Int → Int → Except Cause Int)
    (fractional : Float → Float → Except Cause Float) (l r : Value) (b : Bool) :
    arithmetic op whole fractional l r ≠ .ok (logical b) := by
  intro h
  unfold arithmetic at h
  split at h
  · obtain ⟨n, -, hn⟩ := bind_eq_ok_iff.mp h
    exact ofInt_ne_logical n b hn
  · rename_i x y
    cases hf : fractional x y with
    | error cause =>
      rw [hf] at h
      cases h
    | ok z =>
      rw [hf] at h
      cases h
  · cases h
  · cases h

theorem isLogical_of_apply {l r : Value} {op : Operator} {b : Bool} (h : l.apply op r = .ok (logical b)) :
    op.isLogical := by
  cases op with
  | plus =>
    rw [apply, add] at h
    exact absurd h (arithmetic_ne_logical _ _ _ l r b)
  | minus =>
    rw [apply, sub] at h
    exact absurd h (arithmetic_ne_logical _ _ _ l r b)
  | times =>
    rw [apply, mul] at h
    exact absurd h (arithmetic_ne_logical _ _ _ l r b)
  | divide =>
    rw [apply, div] at h
    exact absurd h (arithmetic_ne_logical _ _ _ l r b)
  | _ => decide

theorem exists_logical {value : Value} (h : value.ty = .logical) : ∃ b, value = logical b := by
  cases value with
  | logical b => exact ⟨b, rfl⟩
  | integer n => cases h
  | real x => cases h

end Value

/-! ### Conditions and right sides -/

namespace Variables

variable {vars : Variables} {e : Expression} {b : Bool}

theorem isLogical_of_evaluate {left operator right : String} {ty : Ty}
    (h : vars.evaluate left operator right ty = .ok (.logical b)) :
    ∃ op, Operator.ofText? operator = some op ∧ op.isLogical := by
  obtain ⟨l, r, op, -, -, hop, happly⟩ := evaluate_eq_ok_iff.mp h
  exact ⟨op, hop, Value.isLogical_of_apply happly⟩

theorem condition_eq_ok_iff : vars.condition e = .ok b ↔ vars.tested e = .ok (.logical b) := by
  unfold condition
  rw [bind_eq_ok_iff]
  constructor
  · rintro ⟨value, ht, h⟩
    cases value with
    | logical b' =>
      cases h
      exact ht
    | integer n => cases h
    | real x => cases h
  · intro h
    exact ⟨_, h, rfl⟩

theorem assigned_logical_iff {value : Value} :
    vars.assigned .logical e = .ok value ↔ ∃ b, value = .logical b ∧ vars.computed .logical e = .ok (.logical b) := by
  unfold assigned
  rw [bind_eq_ok_iff]
  constructor
  · rintro ⟨value', hc, h⟩
    split at h
    · rename_i hty
      cases h
      obtain ⟨b, rfl⟩ := Value.exists_logical hty
      exact ⟨b, rfl, hc⟩
    · cases h
  · rintro ⟨b, rfl, hc⟩
    exact ⟨_, hc, rfl⟩

/-- A single symbol is copied where it can be resolved. -/
theorem copied_eq_ok_iff {symbol : String} {ty : Ty} {value : Value} :
    vars.copied symbol ty = .ok value ↔ vars.resolve symbol ty = .ok value := by
  unfold copied resolve
  cases vars.find? symbol with
  | none => exact Iff.rfl
  | some v => by_cases hty : v.ty = ty <;> simp [hty]

/-- The operands of a logical operator are taken at the same type in a condition and in an assignment. -/
theorem tested_binary_of_isLogical {left operator right : String} {op : Operator}
    (hop : Operator.ofText? operator = some op) (h : op.isLogical) :
    vars.tested (.binary left operator right) = vars.computed .logical (.binary left operator right) := by
  have hassigned : vars.assignedOperandType left operator right .logical =
      if op.isComparison then vars.operandType left right else .ok .logical := by
    rw [assignedOperandType, hop]
    split <;> simp_all [Operator.isLogical]
  rw [tested, computed, hassigned, hop]
  rcases h with h | rfl | rfl
  · rw [if_pos h]
    cases op with
    | and_ => cases h
    | or_ => cases h
    | _ => rfl
  · rfl
  · rfl

theorem exists_evaluate_of_tested {left operator right : String} {value : Value}
    (h : vars.tested (.binary left operator right) = .ok value) :
    ∃ ty, vars.evaluate left operator right ty = .ok value := by
  rw [tested] at h
  split at h
  · exact ⟨_, h⟩
  · exact ⟨_, h⟩
  · obtain ⟨ty, -, heval⟩ := bind_eq_ok_iff.mp h
    exact ⟨ty, heval⟩

/-- **A condition is true or false exactly when the assignment computes that truth value.** -/
theorem computed_logical_iff (he : ∀ op a, e = .unary op a → op = "not") :
    vars.computed .logical e = .ok (.logical b) ↔ vars.tested e = .ok (.logical b) := by
  cases e with
  | symbol a => exact copied_eq_ok_iff
  | unary op a =>
    obtain rfl := he op a rfl
    exact Iff.rfl
  | binary l op r =>
    by_cases hop : ∃ o, Operator.ofText? op = some o ∧ o.isLogical
    · obtain ⟨o, hop, ho⟩ := hop
      rw [tested_binary_of_isLogical hop ho]
    · -- arithmetic and unknown operators give no truth value, at whatever type their operands are taken
      constructor
      · intro h
        obtain ⟨ty, -, heval⟩ := bind_eq_ok_iff.mp h
        exact absurd (isLogical_of_evaluate heval) hop
      · intro h
        obtain ⟨ty, heval⟩ := exists_evaluate_of_tested h
        exact absurd (isLogical_of_evaluate heval) hop

theorem find?_replaceValue {name : String} {value : Value} {v : Variable} {l : List Variable}
    (h : l.find? (fun w => w.name == name) = some v) :
    (replaceValue name value l).find? (fun w => w.name == name) = some ⟨v.name, v.scope, value⟩ := by
  induction l with
  | nil => cases h
  | cons w l ih =>
    by_cases hw : (w.name == name) = true
    · simp only [List.find?_cons, hw] at h
      cases h
      simp [replaceValue, hw]
    · simp only [List.find?_cons, hw] at h
      rw [replaceValue, if_neg hw]
      simp only [List.find?_cons, hw]
      exact ih h

end Variables

/-! ### Assignments to logical variables -/

namespace Machine

variable {env : Environment} {name : String} {v : Variable} {e : Expression} {b : Bool}

theorem assign_eq_attempt (hv : env.vars.find? name = some v) :
    assign env name e = attempt env do
      let value ← env.vars.assigned v.ty e
      let vars ← env.vars.store name value
      return (⟨vars, env.blocks⟩, .next) := by
  rw [assign, Variables.fetch, hv, ok_bind]

/-- Where the condition has a truth value, the assignment stores it. -/
theorem assign_of_condition (hv : env.vars.find? name = some v) (hty : v.ty = .logical)
    (he : ∀ op a, e = .unary op a → op = "not") (hc : env.vars.condition e = .ok b) :
    assign env name e = ⟨⟨env.vars.update name (.logical b), env.blocks⟩, [], .ok .next⟩ := by
  have hassigned : env.vars.assigned v.ty e = .ok (.logical b) := by
    rw [hty, Variables.assigned_logical_iff]
    exact ⟨b, rfl, (Variables.computed_logical_iff he).mpr (Variables.condition_eq_ok_iff.mp hc)⟩
  have hstore : env.vars.store name (.logical b) = .ok (env.vars.update name (.logical b)) := by
    rw [Variables.store, hv]
    exact if_pos hty
  rw [assign_eq_attempt hv, hassigned, ok_bind, hstore, ok_bind, pure_eq_ok, attempt_ok]

/-- Where the condition fails, so does the assignment. -/
theorem assign_of_condition_error {cause : Cause} (hv : env.vars.find? name = some v) (hty : v.ty = .logical)
    (he : ∀ op a, e = .unary op a → op = "not") (hc : env.vars.condition e = .error cause) :
    ∃ cause', assign env name e = ⟨env, [], .error cause'⟩ := by
  rw [assign_eq_attempt hv, hty]
  cases hassigned : env.vars.assigned .logical e with
  | error cause' => exact ⟨cause', rfl⟩
  | ok value =>
    obtain ⟨b, -, hcomputed⟩ := Variables.assigned_logical_iff.mp hassigned
    have hok := Variables.condition_eq_ok_iff.mpr ((Variables.computed_logical_iff he).mp hcomputed)
    rw [hc] at hok
    cases hok

/-! ### Branches -/

section Branches

variable {listing : Listing} {pc : Nat} {env' : Environment} {e' : Expression}

/-- Where an `if` goes depends on its condition and on the open blocks alone. -/
theorem outcome_enterIf_congr (hc : env.vars.condition e = env'.vars.condition e') (hb : env.blocks = env'.blocks) :
    (enterIf listing pc env e).outcome = (enterIf listing pc env' e').outcome := by
  unfold enterIf Environment.openBlock
  rw [hc, hb]
  cases env'.vars.condition e' with
  | error cause => rfl
  | ok taken =>
    cases env'.blocks.push "SCOPES NESTED TOO DEEP" pc with
    | error cause => rfl
    | ok blocks =>
      cases taken with
      | true => rfl
      | false =>
        cases listing.elseOrCloser pc with
        | error cause => rfl
        | ok target =>
          by_cases hk : listing.keyword? target = some .else_ <;> simp [hk]

/-- So does where a `while` goes. -/
theorem outcome_enterWhile_congr (hc : env.vars.condition e = env'.vars.condition e') (hb : env.blocks = env'.blocks) :
    (enterWhile listing pc env e).outcome = (enterWhile listing pc env' e').outcome := by
  unfold enterWhile Environment.openBlock
  rw [hc, hb]
  cases env'.vars.condition e' with
  | error cause => rfl
  | ok taken =>
    cases taken with
    | true => cases env'.blocks.push "SCOPES NESTED TOO DEEP" pc <;> rfl
    | false => cases listing.closer pc <;> rfl

theorem execute_of_condition_error (listing : Listing) (pc : Nat) {cause : Cause}
    (hc : env.vars.condition e = .error cause) :
    execute listing pc env (.if_ e) = ⟨env, [], .error cause⟩ ∧
      execute listing pc env (.while_ e) = ⟨env, [], .error cause⟩ := by
  simp [execute, enterIf, enterWhile, hc]

end Branches

theorem exists_ofTokens? {tokens : List String}
    (ht : tokens.length = 1 ∨ tokens.length = 3 ∨ ∃ a, tokens = ["not", a]) :
    ∃ e, Expression.ofTokens? tokens = some e ∧ ∀ op a, e = .unary op a → op = "not" := by
  rcases ht with ht | ht | ⟨a, rfl⟩
  · obtain ⟨a, rfl⟩ := List.length_eq_one_iff.mp ht
    exact ⟨.symbol a, rfl, by simp⟩
  · obtain ⟨l, op, r, rfl⟩ := List.length_eq_three.mp ht
    exact ⟨.binary l op r, rfl, by simp⟩
  · exact ⟨.unary "not" a, rfl, by simp [eq_comm]⟩

/-- **Conditions agree with assignments to logical variables.**  For one symbol, three tokens, or `not` and a symbol: the
condition has a truth value exactly when the assignment succeeds, which then stores that value.  An `if` or a `while` goes
the same way on the condition as on the variable afterwards, and fails where the assignment fails. -/
theorem conditions_agree_with_assignments {env : Environment} {name : String} {v : Variable} {tokens : List String}
    (hv : env.vars.find? name = some v) (hty : v.ty = .logical)
    (ht : tokens.length = 1 ∨ tokens.length = 3 ∨ ∃ a, tokens = ["not", a]) :
    ∃ e, Expression.ofTokens? tokens = some e ∧ ∀ (listing : Listing) (pc : Nat) (r : Reaction),
      execute listing pc env (.assign name e) = r →
      ((∃ b, env.vars.condition e = .ok b) ↔ ∃ move, r.outcome = .ok move) ∧
      (∀ b, env.vars.condition e = .ok b → r.env.vars.find? name = some ⟨v.name, v.scope, .logical b⟩) ∧
      (∀ move, r.outcome = .ok move →
        (execute listing pc env (.if_ e)).outcome = (execute listing pc r.env (.if_ (.symbol name))).outcome ∧
        (execute listing pc env (.while_ e)).outcome = (execute listing pc r.env (.while_ (.symbol name))).outcome) ∧
      (∀ cause, r.outcome = .error cause →
        ∃ cause', (execute listing pc env (.if_ e)).outcome = .error cause' ∧
          (execute listing pc env (.while_ e)).outcome = .error cause') := by
  obtain ⟨e, htokens, he⟩ := exists_ofTokens? ht
  refine ⟨e, htokens, ?_⟩
  rintro listing pc r rfl
  cases hc : env.vars.condition e with
  | error cause =>
    obtain ⟨cause', hassign⟩ := assign_of_condition_error hv hty he hc
    obtain ⟨hif, hwhile⟩ := execute_of_condition_error listing pc hc
    simp only [execute] at hif hwhile ⊢
    rw [hassign, hif, hwhile]
    simp
  | ok b =>
    have hassign := assign_of_condition hv hty he hc
    have hfind : (env.vars.update name (.logical b)).find? name = some ⟨v.name, v.scope, .logical b⟩ :=
      Variables.find?_replaceValue hv
    have hsymbol : (env.vars.update name (.logical b)).condition (.symbol name) = .ok b := by
      rw [Variables.condition_eq_ok_iff, Variables.tested, Variables.resolve, hfind]
      rfl
    simp only [execute, hassign]
    refine ⟨by simp, ?_, ?_, by simp⟩
    · intro b' hb'
      cases hb'
      exact hfind
    · intro move hmove
      exact ⟨outcome_enterIf_congr (hc.trans hsymbol.symm) rfl, outcome_enterWhile_congr (hc.trans hsymbol.symm) rfl⟩

/-- A logical variable beside a whole number whose name is a literal. -/
def namedByNumber : Environment :=
  ⟨⟨[⟨"b", 0, .logical true⟩, ⟨"1", 0, .integer 7⟩]⟩, .empty⟩

theorem conditions_agree_with_assignments_namedByNumber :
    namedByNumber.vars.find? "b" = some ⟨"b", 0, .logical true⟩ ∧ ["1", "<", "3"].length = 3 ∧
    Expression.ofTokens? ["1", "<", "3"] = some (.binary "1" "<" "3") ∧
    (execute {} 0 namedByNumber (.assign "b" (.binary "1" "<" "3"))).env.vars.find? "b" =
      some ⟨"b", 0, .logical false⟩ := by
  have hv : namedByNumber.vars.find? "b" = some ⟨"b", 0, .logical true⟩ := rfl
  have ht : ["1", "<", "3"].length = 3 := rfl
  obtain ⟨e, he, h⟩ := conditions_agree_with_assignments hv rfl (.inr (.inl ht))
  cases he
  exact ⟨hv, ht, rfl, (h {} 0 _ rfl).2.1 false rfl⟩

end Machine

/-! ### Comparisons with their sides exchanged -/

/-- The comparison that holds when the sides are exchanged. -/
def Operator.mirror : Operator → Operator
  | less => greater
  | lessEqual => greaterEqual
  | greater => less
  | greaterEqual => lessEqual
  | op => op

namespace Operator

@[simp] theorem mirror_mirror (op : Operator) : op.mirror.mirror = op := by
  cases op <;> rfl

@[simp] theorem isComparison_mirror (op : Operator) : op.mirror.isComparison = op.isComparison := by
  cases op <;> rfl

end Operator

namespace Binary64

open Float.Model in
/-- Exchanging two doubles turns their order around. -/
theorem compare_swap (a b : UnpackedFloat) : b.compare a = (a.compare b).map Ordering.swap := by
  cases a with
  | notANumber => cases b <;> rfl
  | infinity s =>
    cases b with
    | infinity t => cases s <;> cases t <;> rfl
    | _ => cases s <;> rfl
  | zero s =>
    cases b with
    | infinity t => cases t <;> rfl
    | finite t m e h => cases t <;> rfl
    | _ => rfl
  | finite s m e h =>
    cases b with
    | infinity t => cases t <;> rfl
    | zero t => cases s <;> rfl
    | notANumber => cases s <;> rfl
    | finite t m' e' h' =>
      have he : compare e' e = (compare e e').swap := Std.OrientedCmp.eq_swap
      have hm : compare m' m = (compare m m').swap := Std.OrientedCmp.eq_swap
      have hsame : (compare e' e).then (compare m' m) = ((compare e e').then (compare m m')).swap := by
        rw [he, hm, Ordering.swap_then]
      -- the magnitudes decide where the signs are the same, the other way around below zero
      cases s with
      | positive =>
        cases t with
        | positive => exact congrArg some hsame
        | negative => rfl
      | negative =>
        cases t with
        | positive => rfl
        | negative => exact congrArg (fun o => some o.swap) hsame

theorem beq_comm (x y : Float) : (x == y) = (y == x) := by
  show (x.toModel.unpack.compare y.toModel.unpack == some .eq) = (y.toModel.unpack.compare x.toModel.unpack == some .eq)
  rw [compare_swap x.toModel.unpack y.toModel.unpack]
  cases x.toModel.unpack.compare y.toModel.unpack with
  | none => rfl
  | some o => cases o <;> rfl

end Binary64

namespace Value

variable {op : Operator} {w : Value}

theorem holds?_mirror (op : Operator) (equal less lessEqual greater greaterEqual : Bool) :
    holds? op.mirror equal greater greaterEqual less lessEqual = holds? op equal less lessEqual greater greaterEqual := by
  cases op <;> rfl

theorem compare_integer_iff {a b : Int32} :
    compare (integer a) op (integer b) = .ok w ↔
      ∃ t, holds? op (a == b) (a < b) (a ≤ b) (b < a) (b ≤ a) = some t ∧ logical t = w := by
  unfold compare
  dsimp only
  cases holds? op (a == b) (a < b) (a ≤ b) (b < a) (b ≤ a) <;> simp

theorem compare_real_iff {x y : Float} :
    compare (real x) op (real y) = .ok w ↔
      ∃ t, holds? op (x == y) (x < y) (x ≤ y) (y < x) (y ≤ x) = some t ∧ logical t = w := by
  unfold compare
  dsimp only
  cases holds? op (x == y) (x < y) (x ≤ y) (y < x) (y ≤ x) <;> simp

/-- A comparison and its mirror image hold of the same values. -/
theorem compare_mirror {l r : Value} (h : l.compare op r = .ok w) : r.compare op.mirror l = .ok w := by
  cases l with
  | integer a =>
    cases r with
    | integer b =>
      rw [compare_integer_iff] at h ⊢
      rw [BEq.comm (a := b), holds?_mirror]
      exact h
    | logical b => cases h
    | real y => cases h
  | real x =>
    cases r with
    | real y =>
      rw [compare_real_iff] at h ⊢
      rw [Binary64.beq_comm y x, holds?_mirror]
      exact h
    | integer b => cases h
    | logical b => cases h
  | logical a =>
    cases r with
    | logical b =>
      cases op with
      | equal =>
        rw [← h]
        show Except.ok (logical (b == a)) = .ok (logical (a == b))
        rw [Bool.beq_comm]
      | notEqual =>
        rw [← h]
        show Except.ok (logical (b != a)) = .ok (logical (a != b))
        rw [bne_comm]
      | _ => cases h
    | integer b => cases h
    | real y => cases h

theorem apply_of_isComparison (hop : op.isComparison = true) (l r : Value) : l.apply op r = l.compare op r := by
  cases op with
  | plus => cases hop
  | minus => cases hop
  | times => cases hop
  | divide => cases hop
  | and_ => cases hop
  | or_ => cases hop
  | _ => rfl

end Value

namespace Variables

variable {vars : Variables} {x y : String} {ty : Ty} {l r w : Value} {op : Operator}

/-- Two symbols that can be compared at a type are compared at that type from either side. -/
theorem operandType_mirror (hty : vars.operandType x y = .ok ty) (hx : vars.resolve x ty = .ok l)
    (hy : vars.resolve y ty = .ok r) : vars.operandType y x = .ok ty := by
  unfold operandType at hty ⊢
  rcases resolve_eq_ok_iff.mp hx with ⟨v, hfx, hvx, -⟩ | ⟨hfx, hpx⟩
  · rcases resolve_eq_ok_iff.mp hy with ⟨v', hfy, hvy, -⟩ | ⟨hfy, hpy⟩
    · simp [hfx, hfy, hvy]
    · simp [hfx, hfy, hvx]
  · rcases resolve_eq_ok_iff.mp hy with ⟨v', hfy, hvy, -⟩ | ⟨hfy, hpy⟩
    · simp [hfx, hfy, hvy]
    · -- between two literals the left one decides, but a whole number beside a double is read as one
      simp only [hfx, hfy] at hty ⊢
      rcases Literal.type?_of_parse? (Option.isSome_of_eq_some hpx) with htx | ⟨rfl, htx⟩
      · rcases Literal.type?_of_parse? (Option.isSome_of_eq_some hpy) with hty' | ⟨rfl, hty'⟩
        · cases ty <;> simp [htx, hty']
        · simp [htx, hty']
      · rcases Literal.type?_of_parse? (Option.isSome_of_eq_some hpy) with hty' | ⟨-, hty'⟩
        · simp [hty']
        · simp [htx, hty'] at hty

theorem tested_of_isComparison (hop : op.isComparison = true) :
    vars.tested (.binary x op.text y) = vars.operandType x y >>= vars.evaluate x op.text y := by
  rw [tested, Operator.ofText?_text]
  cases op with
  | and_ => cases hop
  | or_ => cases hop
  | _ => rfl

theorem tested_mirror_of (hop : op.isComparison = true) (h : vars.tested (.binary x op.text y) = .ok w) :
    vars.tested (.binary y op.mirror.text x) = .ok w := by
  rw [tested_of_isComparison hop] at h
  obtain ⟨ty, hty, heval⟩ := bind_eq_ok_iff.mp h
  obtain ⟨l, r, op', hx, hy, htext, happly⟩ := evaluate_eq_ok_iff.mp heval
  rw [Operator.ofText?_text, Option.some.injEq] at htext
  subst htext
  rw [Value.apply_of_isComparison hop] at happly
  have hmirror : op.mirror.isComparison = true := by rw [Operator.isComparison_mirror, hop]
  rw [tested_of_isComparison hmirror, operandType_mirror hty hx hy, ok_bind, evaluate_of_operator hy hx,
    Value.apply_of_isComparison hmirror]
  exact Value.compare_mirror happly

/-- **A condition and its mirror image have the same truth value.** -/
theorem condition_mirror_iff (hop : op.isComparison = true) {b : Bool} :
    vars.condition (.binary x op.text y) = .ok b ↔ vars.condition (.binary y op.mirror.text x) = .ok b := by
  rw [condition_eq_ok_iff, condition_eq_ok_iff]
  constructor
  · exact tested_mirror_of hop
  · intro h
    have hback := tested_mirror_of (by rw [Operator.isComparison_mirror, hop]) h
    rwa [Operator.mirror_mirror] at hback

end Variables

namespace Machine

/-- **Comparisons are mirror symmetric.**  For any two symbols, a comparison has a truth value exactly when its mirror
image has the same one, as a condition and as the right side of an assignment to a logical variable, which then does the
same. -/
theorem comparisons_mirror (env : Environment) (x y : String) {op : Operator} (hop : op.isComparison = true) :
    (∀ b, env.vars.condition (.binary x op.text y) = .ok b ↔
      env.vars.condition (.binary y op.mirror.text x) = .ok b) ∧
    ((∃ cause, env.vars.condition (.binary x op.text y) = .error cause) ↔
      ∃ cause, env.vars.condition (.binary y op.mirror.text x) = .error cause) ∧
    (∀ name v, env.vars.find? name = some v → v.ty = .logical →
      (∀ r move, r.outcome = .ok move →
        (assign env name (.binary x op.text y) = r ↔ assign env name (.binary y op.mirror.text x) = r)) ∧
      ((∃ cause, (assign env name (.binary x op.text y)).outcome = .error cause) ↔
        ∃ cause, (assign env name (.binary y op.mirror.text x)).outcome = .error cause)) := by
  have hiff : ∀ b, env.vars.condition (.binary x op.text y) = .ok b ↔
      env.vars.condition (.binary y op.mirror.text x) = .ok b := fun b => Variables.condition_mirror_iff hop
  refine ⟨hiff, ?_⟩
  -- the two conditions have one truth value, or both of them fail
  cases hc : env.vars.condition (.binary x op.text y) with
  | ok b =>
    have hc' := (hiff b).mp hc
    rw [hc']
    refine ⟨by simp, ?_⟩
    intro name v hv hty
    rw [assign_of_condition hv hty (by simp) hc, assign_of_condition hv hty (by simp) hc']
    exact ⟨fun r move _ => Iff.rfl, Iff.rfl⟩
  | error cause =>
    cases hc' : env.vars.condition (.binary y op.mirror.text x) with
    | ok b =>
      rw [(hiff b).mpr hc'] at hc
      cases hc
    | error cause' =>
      refine ⟨by simp, ?_⟩
      intro name v hv hty
      obtain ⟨c, hassign⟩ := assign_of_condition_error hv hty (by simp) hc
      obtain ⟨c', hassign'⟩ := assign_of_condition_error hv hty (by simp) hc'
      rw [hassign, hassign']
      refine ⟨?_, by simp⟩
      rintro r move hr
      constructor
      · rintro rfl
        cases hr
      · rintro rfl
        cases hr

theorem comparisons_mirror_namedByNumber :
    namedByNumber.vars.condition (.binary "3" ">=" "1") = .ok false ∧
    namedByNumber.vars.condition (.binary "1" "<=" "3") = .ok false ∧
    (∃ cause, namedByNumber.vars.condition (.binary "2.5" "<" "1") = .error cause) ∧
    (∃ cause, namedByNumber.vars.condition (.binary "1" ">" "2.5") = .error cause) ∧
    assign namedByNumber "b" (.binary "3" ">=" "1") = assign namedByNumber "b" (.binary "1" "<=" "3") := by
  have hle : Operator.isComparison .lessEqual = true := rfl
  have hgt : Operator.isComparison .greater = true := rfl
  obtain ⟨htrue, -, hassign⟩ := comparisons_mirror namedByNumber "1" "3" hle
  obtain ⟨-, herror, -⟩ := comparisons_mirror namedByNumber "1" "2.5" hgt
  have hfalse : namedByNumber.vars.condition (.binary "1" "<=" "3") = .ok false := rfl
  have hfails : ∃ cause, namedByNumber.vars.condition (.binary "1" ">" "2.5") = .error cause := ⟨_, rfl⟩
  refine ⟨(htrue false).mp hfalse, hfalse, herror.mp hfails, hfails, ?_⟩
  exact ((hassign "b" _ rfl rfl).1 _ .next rfl).mp rfl

end Machine

end LineScript
