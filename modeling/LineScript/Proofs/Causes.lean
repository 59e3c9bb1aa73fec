import LineScript.Proofs.Transitions

/-!
# LineScript.Proofs.Causes — where failures come from

Names, types, values and operators fail for reasons of their own; everything about blocks fails elsewhere.

* `Cause.isLocal`: the causes that concern a statement by itself.
* `FailsLocally`: computations that fail for no other cause; it holds of everything below `Machine.execute` that
  evaluates.
* `Machine.Failure`, `Machine.failure_of_execute`: a line that fails for another cause met a full stack, a missing
  block, or a block without end.
-/

namespace LineScript

/-- Causes that concern the words, names, types and values of one statement, whatever blocks stand around it. -/
def Cause.isLocal : Cause → Bool
  | unexpectedEndOfScope | elseWithoutIf | unterminatedScope => false
  | outOfMemory _ | stepLimitExceeded _ | fileNotFound _ | internalError _ => false
  | _ => true

/-- The computation fails for local causes only. -/
def FailsLocally {α : Type} (x : Except Cause α) : Prop :=
  ∀ cause, x = .error cause → cause.isLocal = true

section Combinators

variable {α β : Type}

theorem failsLocally_ok (a : α) : FailsLocally (.ok a : Except Cause α) := by
  intro cause h
  cases h

theorem failsLocally_error {cause : Cause} (h : cause.isLocal = true) :
    FailsLocally (.error cause : Except Cause α) := by
  intro cause' h'
  cases h'
  exact h

theorem FailsLocally.bind {x : Except Cause α} {f : α → Except Cause β} (hx : FailsLocally x)
    (hf : ∀ a, FailsLocally (f a)) : FailsLocally (x >>= f) := by
  intro cause h
  cases x with
  | error cause' =>
    cases h
    exact hx cause rfl
  | ok a => exact hf a cause h

theorem FailsLocally.map {x : Except Cause α} (f : α → β) (hx : FailsLocally x) : FailsLocally (f <$> x) := by
  intro cause h
  cases x with
  | error cause' =>
    cases h
    exact hx cause rfl
  | ok a => cases h

end Combinators

/-! ### Values -/

namespace Value

theorem failsLocally_ofInt (n : Int) : FailsLocally (ofInt n) := by
  unfold ofInt
  split
  · exact failsLocally_ok _
  · exact failsLocally_error rfl

theorem failsLocally_arithmetic (op : Operator) {whole : Int → Int → Except Cause Int}
    {fractional : Float → Float → Except Cause Float} (hw : ∀ l r, FailsLocally (whole l r))
    (hf : ∀ l r, FailsLocally (fractional l r)) (l r : Value) :
    FailsLocally (arithmetic op whole fractional l r) := by
  unfold arithmetic
  split
  · exact (hw _ _).bind failsLocally_ofInt
  · exact (hf _ _).map _
  · exact failsLocally_error rfl
  · exact failsLocally_error rfl

theorem failsLocally_compare (l : Value) (op : Operator) (r : Value) : FailsLocally (l.compare op r) := by
  unfold compare
  dsimp only
  split
  · exact failsLocally_ok _
  · exact failsLocally_error rfl
  · rename_i cause h
    refine failsLocally_error ?_
    split at h
    · cases h
    · cases h
    · split at h <;> cases h
    · cases h
      rfl

theorem failsLocally_apply (l : Value) (op : Operator) (r : Value) : FailsLocally (l.apply op r) := by
  have hdivide : ∀ {α : Type} (b : Prop) [Decidable b] (a : α),
      FailsLocally (if b then .error .divisionByZero else .ok a : Except Cause α) := by
    intro α b _ a
    split
    · exact failsLocally_error rfl
    · exact failsLocally_ok _
  unfold apply
  split
  · exact failsLocally_arithmetic _ (fun _ _ => failsLocally_ok _) (fun _ _ => failsLocally_ok _) l r
  · exact failsLocally_arithmetic _ (fun _ _ => failsLocally_ok _) (fun _ _ => failsLocally_ok _) l r
  · exact failsLocally_arithmetic _ (fun _ _ => failsLocally_ok _) (fun _ _ => failsLocally_ok _) l r
  · exact failsLocally_arithmetic _ (fun _ _ => hdivide _ _) (fun _ _ => hdivide _ _) l r
  · unfold and
    split
    · exact failsLocally_ok _
    · exact failsLocally_error rfl
  · unfold or
    split
    · exact failsLocally_ok _
    · exact failsLocally_error rfl
  · exact failsLocally_compare l _ r

theorem failsLocally_not (v : Value) : FailsLocally v.not := by
  unfold not
  split
  · exact failsLocally_ok _
  · exact failsLocally_error rfl

theorem failsLocally_sqrt (v : Value) : FailsLocally v.sqrt := by
  unfold sqrt
  split
  · split
    · exact failsLocally_error rfl
    · exact failsLocally_ok _
  · exact failsLocally_error rfl

theorem failsLocally_convert (v : Value) (ty : Ty) : FailsLocally (v.convert ty) := by
  unfold convert
  split
  · unfold toInteger
    split
    · exact failsLocally_ok _
    · exact failsLocally_ok _
    · split
      · exact failsLocally_ofInt _
      · exact failsLocally_error rfl
  · exact failsLocally_ok _
  · exact failsLocally_ok _

end Value

/-! ### Variables and expressions -/

namespace Variables

variable (vars : Variables)

theorem failsLocally_declare (name : String) (ty : Ty) (scope : Nat) :
    FailsLocally (vars.declare name ty scope) := by
  unfold declare
  split
  · exact failsLocally_error rfl
  · split
    · exact failsLocally_error rfl
    · split
      · exact failsLocally_error rfl
      · exact failsLocally_ok _

theorem failsLocally_fetch (name : String) : FailsLocally (vars.fetch name) := by
  unfold fetch
  split
  · exact failsLocally_ok _
  · exact failsLocally_error rfl

theorem failsLocally_store (name : String) (value : Value) : FailsLocally (vars.store name value) := by
  unfold store
  split
  · split
    · exact failsLocally_ok _
    · exact failsLocally_error rfl
  · exact failsLocally_error rfl

theorem failsLocally_resolve (symbol : String) (ty : Ty) : FailsLocally (vars.resolve symbol ty) := by
  unfold resolve
  split
  · split
    · exact failsLocally_ok _
    · exact failsLocally_error rfl
  · split
    · exact failsLocally_ok _
    · exact failsLocally_error rfl

theorem failsLocally_resolveAny (symbol : String) : FailsLocally (vars.resolveAny symbol) := by
  unfold resolveAny
  split
  · exact vars.failsLocally_resolve _ _
  · exact failsLocally_error rfl

theorem failsLocally_operandType (left right : String) : FailsLocally (vars.operandType left right) := by
  unfold operandType
  split
  · exact failsLocally_ok _
  · exact failsLocally_ok _
  · split
    · exact failsLocally_ok _
    · exact failsLocally_ok _
    · exact failsLocally_error rfl

theorem failsLocally_evaluate (left operator right : String) (ty : Ty) :
    FailsLocally (vars.evaluate left operator right ty) := by
  refine (vars.failsLocally_resolve left ty).bind fun l => (vars.failsLocally_resolve right ty).bind fun r => ?_
  split
  · exact Value.failsLocally_apply _ _ _
  · exact failsLocally_error rfl

theorem failsLocally_unary (operator symbol : String) : FailsLocally (vars.unary operator symbol) := by
  unfold unary
  split
  · exact (vars.failsLocally_resolve _ _).bind Value.failsLocally_not
  · exact (vars.failsLocally_resolve _ _).bind Value.failsLocally_sqrt
  · split
    · exact (vars.failsLocally_resolveAny _).bind fun v => v.failsLocally_convert _
    · exact failsLocally_error rfl
  · exact failsLocally_error rfl

theorem failsLocally_computed (target : Ty) (e : Expression) : FailsLocally (vars.computed target e) := by
  cases e with
  | symbol a =>
    rw [computed]
    unfold copied
    split
    · split
      · exact failsLocally_ok _
      · exact failsLocally_error rfl
    · split
      · exact failsLocally_ok _
      · exact failsLocally_error rfl
  | unary op a => exact vars.failsLocally_unary op a
  | binary l op r =>
    refine FailsLocally.bind ?_ fun ty => vars.failsLocally_evaluate l op r ty
    unfold assignedOperandType
    split
    · split
      · exact vars.failsLocally_operandType l r
      · split
        · exact failsLocally_ok _
        · exact failsLocally_ok _
    · exact failsLocally_ok _

theorem failsLocally_assigned (target : Ty) (e : Expression) : FailsLocally (vars.assigned target e) := by
  refine (vars.failsLocally_computed target e).bind fun value => ?_
  split
  · exact failsLocally_ok _
  · exact failsLocally_error rfl

theorem failsLocally_tested (e : Expression) : FailsLocally (vars.tested e) := by
  cases e with
  | symbol a => exact vars.failsLocally_resolve a .logical
  | unary op a =>
    rw [tested]
    split
    · exact (vars.failsLocally_resolve _ _).bind Value.failsLocally_not
    · exact failsLocally_error rfl
  | binary l op r =>
    rw [tested]
    split
    · exact vars.failsLocally_evaluate l op r .logical
    · exact vars.failsLocally_evaluate l op r .logical
    · exact (vars.failsLocally_operandType l r).bind fun ty => vars.failsLocally_evaluate l op r ty

theorem failsLocally_condition (e : Expression) : FailsLocally (vars.condition e) := by
  refine (vars.failsLocally_tested e).bind fun value => ?_
  split
  · exact failsLocally_ok _
  · exact failsLocally_error rfl

theorem failsLocally_levels (symbol : String) : FailsLocally (vars.levels symbol) := by
  refine (vars.failsLocally_resolve symbol .integer).bind fun value => ?_
  split
  · split
    · exact failsLocally_ok _
    · exact failsLocally_error rfl
  · exact failsLocally_error rfl

theorem one_le_of_levels {symbol : String} {levels : Nat} (h : vars.levels symbol = .ok levels) : 1 ≤ levels := by
  obtain ⟨value, -, h⟩ := bind_eq_ok_iff.mp h
  split at h
  · split at h
    · cases h
      omega
    · cases h
  · cases h

end Variables

/-! ### Blocks -/

theorem bind_eq_error_iff {α β : Type} {x : Except Cause α} {f : α → Except Cause β} {cause : Cause} :
    (x >>= f) = .error cause ↔ x = .error cause ∨ ∃ a, x = .ok a ∧ f a = .error cause := by
  cases x with
  | error cause' => simp
  | ok a => simp

namespace Environment

variable {env : Environment} {cause : Cause}

theorem openBlock_eq_error {line : Nat} (h : env.openBlock line = .error cause) :
    Stack.limit ≤ env.depth ∧ cause = .outOfMemory "SCOPES NESTED TOO DEEP" := by
  unfold openBlock at h
  split at h
  · cases h
  · rename_i cause' hp
    cases h
    unfold Stack.push at hp
    split at hp
    · rename_i hlim
      cases hp
      exact ⟨hlim, rfl⟩
    · cases hp

theorem closeBlock_eq_error (h : env.closeBlock = .error cause) : cause = .unexpectedEndOfScope := by
  cases hitems : env.blocks.items with
  | nil =>
    rw [closeBlock_of_nil hitems] at h
    cases h
    rfl
  | cons line outer =>
    obtain ⟨env', hc, -⟩ := exists_closeBlock hitems
    rw [hc] at h
    cases h

theorem closeBlocks_eq_error {n : Nat} (h : env.closeBlocks n = .error cause) : cause = .unexpectedEndOfScope := by
  induction n generalizing env with
  | zero => cases h
  | succ n ih =>
    rw [closeBlocks] at h
    split at h
    · exact ih h
    · rename_i hc
      cases h
      exact closeBlock_eq_error hc

end Environment

namespace Listing

variable {listing : Listing} {cause : Cause}

theorem closer_eq_error {i : Nat} (h : listing.closer i = .error cause) :
    listing.closer? i = none ∧ cause = .unterminatedScope := by
  unfold closer at h
  split at h
  · cases h
  · rename_i hn
    cases h
    exact ⟨hn, rfl⟩

theorem elseOrCloser_eq_error {i : Nat} (h : listing.elseOrCloser i = .error cause) :
    listing.elseOrCloser? i = none ∧ cause = .unterminatedScope := by
  unfold elseOrCloser at h
  split at h
  · cases h
  · rename_i hn
    cases h
    exact ⟨hn, rfl⟩

end Listing

/-! ### Lines -/

namespace Machine

/-- Why line `pc` can fail. -/
inductive Failure (listing : Listing) (pc : Nat) (env : Environment) : Cause → Prop
  | evaluation {cause : Cause} (h : cause.isLocal = true) : Failure listing pc env cause
  | noBlock : Failure listing pc env .unexpectedEndOfScope
  | noIf : Failure listing pc env .elseWithoutIf
  | noEnd (hr : listing.role pc = .opener) (h : listing.closer? pc = none ∨ listing.elseOrCloser? pc = none) :
      Failure listing pc env .unterminatedScope
  | noOuterEnd {n i : Nat} (hi : env.opener? n = some i) (h : listing.closer? i = none) :
      Failure listing pc env .unterminatedScope
  | tooDeep (hr : listing.role pc = .opener) (h : Stack.limit ≤ env.depth) :
      Failure listing pc env (.outOfMemory "SCOPES NESTED TOO DEEP")

section Inversion

variable {listing : Listing} {pc : Nat} {env : Environment} {cause : Cause}

theorem attempt_eq_error {result : Except Cause (Environment × Move)}
    (h : (attempt env result).outcome = .error cause) : result = .error cause := by
  cases result with
  | error cause' =>
    cases h
    rfl
  | ok r => cases h

theorem failure_of_openBlock (hr : listing.role pc = .opener) (h : env.openBlock pc = .error cause) :
    Failure listing pc env cause := by
  obtain ⟨hlim, rfl⟩ := Environment.openBlock_eq_error h
  exact .tooDeep hr hlim

theorem failure_of_enterIf {e : Expression} (hr : listing.role pc = .opener)
    (h : (enterIf listing pc env e).outcome = .error cause) : Failure listing pc env cause := by
  unfold enterIf at h
  split at h
  · rename_i cause' hc
    cases h
    exact .evaluation (env.vars.failsLocally_condition e _ hc)
  · split at h
    · rename_i ho
      cases h
      exact failure_of_openBlock hr ho
    · split at h
      · cases h
      · rcases bind_eq_error_iff.mp (attempt_eq_error h) with hj | ⟨j, -, hj⟩
        · obtain ⟨hn, rfl⟩ := Listing.elseOrCloser_eq_error hj
          exact .noEnd hr (Or.inr hn)
        · split at hj <;> cases hj

theorem failure_of_leaveElse (h : (leaveElse listing env).outcome = .error cause) :
    Failure listing pc env cause := by
  unfold leaveElse at h
  split at h
  · rename_i i hi
    split at h
    · rcases bind_eq_error_iff.mp (attempt_eq_error h) with hj | ⟨j, -, hj⟩
      · obtain ⟨hn, rfl⟩ := Listing.closer_eq_error hj
        exact .noOuterEnd hi hn
      · cases hj
    · cases h
      exact .noIf
  · cases h
    exact .noIf

theorem failure_of_enterWhile {e : Expression} (hr : listing.role pc = .opener)
    (h : (enterWhile listing pc env e).outcome = .error cause) : Failure listing pc env cause := by
  rcases bind_eq_error_iff.mp (attempt_eq_error h) with hc | ⟨taken, -, h⟩
  · exact .evaluation (env.vars.failsLocally_condition e _ hc)
  · split at h
    · rcases bind_eq_error_iff.mp h with ho | ⟨env', -, h⟩
      · exact failure_of_openBlock hr ho
      · cases h
    · rcases bind_eq_error_iff.mp h with hj | ⟨j, -, h⟩
      · obtain ⟨hn, rfl⟩ := Listing.closer_eq_error hj
        exact .noEnd hr (Or.inl hn)
      · cases h

theorem failure_of_endBlock (h : (endBlock listing env).outcome = .error cause) :
    Failure listing pc env cause := by
  unfold endBlock at h
  split at h
  · rcases bind_eq_error_iff.mp (attempt_eq_error h) with hc | ⟨r, -, h⟩
    · rw [Environment.closeBlock_eq_error hc]
      exact .noBlock
    · cases h
  · rcases bind_eq_error_iff.mp (attempt_eq_error h) with hc | ⟨r, -, h⟩
    · rw [Environment.closeBlock_eq_error hc]
      exact .noBlock
    · cases h
  · cases h
    exact .noBlock

theorem failure_of_leaveBlocks {levels : Nat} {closing : Bool}
    (h : (leaveBlocks listing env levels closing).outcome = .error cause) : Failure listing pc env cause := by
  unfold leaveBlocks at h
  split at h
  · cases h
    exact .noBlock
  · split at h
    · cases h
      exact .noBlock
    · rename_i i hi
      rcases bind_eq_error_iff.mp (attempt_eq_error h) with hj | ⟨j, -, h⟩
      · obtain ⟨hn, rfl⟩ := Listing.closer_eq_error hj
        exact .noOuterEnd hi hn
      · rcases bind_eq_error_iff.mp h with hc | ⟨env', -, h⟩
        · rw [Environment.closeBlocks_eq_error hc]
          exact .noBlock
        · cases h

theorem failure_of_leaveNamed {levels : Option String} {closing : Bool}
    (h : (leaveNamed listing env closing levels).outcome = .error cause) : Failure listing pc env cause := by
  cases levels with
  | none => exact failure_of_leaveBlocks h
  | some symbol =>
    rw [leaveNamed] at h
    split at h
    · exact failure_of_leaveBlocks h
    · rename_i hl
      cases h
      exact .evaluation (env.vars.failsLocally_levels symbol _ hl)

theorem failure_of_assign {name : String} {e : Expression} (h : (assign env name e).outcome = .error cause) :
    Failure listing pc env cause := by
  have hlocal : FailsLocally (do
      let v ← env.vars.fetch name
      let value ← env.vars.assigned v.ty e
      let vars ← env.vars.store name value
      return ((⟨vars, env.blocks⟩ : Environment), Move.next)) :=
    (env.vars.failsLocally_fetch name).bind fun v => (env.vars.failsLocally_assigned v.ty e).bind fun value =>
      (env.vars.failsLocally_store name value).bind fun vars => failsLocally_ok _
  exact .evaluation (hlocal cause (attempt_eq_error h))

/-- **Lines fail for no other reasons.** -/
theorem failure_of_execute {line : Line} (hline : listing.line? pc = some line)
    (h : (execute listing pc env (.ofLine line)).outcome = .error cause) : Failure listing pc env cause := by
  have hkey : ∀ k, (Statement.ofLine line).keyword? = some k → listing.keyword? pc = some k :=
    fun k hk => Listing.keyword?_of_ofLine hline hk
  generalize hst : Statement.ofLine line = st at h hkey
  cases st with
  | blank => cases h
  | exit => cases h
  | declare ty name =>
    rcases bind_eq_error_iff.mp (attempt_eq_error h) with hd | ⟨env', -, h⟩
    · unfold Environment.declare at hd
      split at hd
      · cases hd
      · rename_i hd'
        cases hd
        exact .evaluation (env.vars.failsLocally_declare name ty env.depth _ hd')
    · cases h
  | untyped => exact absurd hst (Statement.ofLine_ne_untyped line)
  | push =>
    rcases bind_eq_error_iff.mp (attempt_eq_error h) with ho | ⟨env', -, h⟩
    · exact failure_of_openBlock (Listing.role_of_keyword? (hkey _ rfl)) ho
    · cases h
  | pop =>
    rcases bind_eq_error_iff.mp (attempt_eq_error h) with hc | ⟨r, -, h⟩
    · rw [Environment.closeBlock_eq_error hc]
      exact .noBlock
    · cases h
  | print name =>
    rw [execute, print] at h
    split at h
    · cases h
    · rename_i hf
      cases h
      exact .evaluation (env.vars.failsLocally_fetch name _ hf)
  | if_ e => exact failure_of_enterIf (Listing.role_of_keyword? (hkey _ rfl)) h
  | else_ => exact failure_of_leaveElse h
  | while_ e => exact failure_of_enterWhile (Listing.role_of_keyword? (hkey _ rfl)) h
  | end_ => exact failure_of_endBlock h
  | break_ levels => exact failure_of_leaveNamed h
  | continue_ levels => exact failure_of_leaveNamed h
  | assign name e => exact failure_of_assign h
  | unrecognized text =>
    cases h
    exact .evaluation rfl

/-- The limit gives a cause of its own. -/
theorem exhausted?_eq_some {limit : Option Nat} {steps : Nat} {cause : Cause}
    (h : exhausted? limit steps = some cause) : ∃ n : Nat, cause = .stepLimitExceeded n.repr := by
  unfold exhausted? at h
  split at h
  · split at h
    · cases h
      exact ⟨_, rfl⟩
    · cases h
  · cases h

end Inversion

end Machine

end LineScript
