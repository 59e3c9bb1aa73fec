import LineScript.Machine
import LineScript.Proofs.Nesting
import LineScript.Proofs.Scoping

/-!
# LineScript.Proofs.Transitions — what one line can do

* `Machine.endBlock_of_if`, `endBlock_of_while`, `leaveElse_of_if`, `exists_leaveBlocks`: the lines that end a part of
  a block, where they succeed.
* `Machine.Transition`: every way in which a line that neither ends the run nor fails can change the environment and
  the position, with the searches that it makes.
* `Machine.transition_of_turn`: the machine makes no other steps.
* `Machine.stateAt n`: the state at the top of the loop after `n` lines of a run.
* `Machine.Ending`, `Machine.ending_of_turn`: the ways in which a run ends.
* `Machine.wellScoped_of_stateAt`, `transition_of_stateAt`: the table stays well scoped, so every two neighbouring
  states of a run are related by a transition.
-/

namespace LineScript

/-! ### Computations that can fail -/

section Computations

variable {α β : Type}

@[simp] theorem ok_bind (a : α) (f : α → Except Cause β) : (Except.ok a >>= f) = f a := rfl

@[simp] theorem error_bind (cause : Cause) (f : α → Except Cause β) : (Except.error cause >>= f) = .error cause := rfl

@[simp] theorem pure_eq_ok (a : α) : (pure a : Except Cause α) = .ok a := rfl

theorem bind_eq_ok_iff {x : Except Cause α} {f : α → Except Cause β} {b : β} :
    (x >>= f) = .ok b ↔ ∃ a, x = .ok a ∧ f a = .ok b := by
  cases x with
  | error cause => simp
  | ok a => simp

end Computations

/-! ### Lines and their statements -/

theorem Keyword.isPrefixOf_text (k : Keyword) : ['/', '/'].isPrefixOf k.text.toList = false := by
  cases k <;> decide

/-- A comment is no keyword. -/
theorem Line.keyword?_of_isBlank {line : Line} (h : line.isBlank = true) : line.keyword? = none := by
  cases hk : line.keyword? with
  | none => rfl
  | some k =>
    rw [keyword?, Option.bind_eq_some_iff] at hk
    obtain ⟨t, ht, hk⟩ := hk
    rw [Keyword.ofText?_eq_some_iff] at hk
    subst hk
    obtain ⟨rest, hrest⟩ : ∃ rest, line.tokens = k.text :: rest := by
      cases hl : line.tokens with
      | nil => simp [hl] at ht
      | cons a rest => simp only [hl, List.head?_cons, Option.some.injEq] at ht; exact ⟨rest, by rw [ht]⟩
    simp [isBlank, isEmpty, isComment, hrest, Keyword.isPrefixOf_text] at h

namespace Statement

/-- The keyword that a statement is written with. -/
def keyword? : Statement → Option Keyword
  | blank | untyped | assign _ _ | unrecognized _ => none
  | exit => some .exit
  | declare .integer _ => some .integer
  | declare .logical _ => some .logical
  | declare .real _ => some .real
  | push => some .push
  | pop => some .pop
  | print _ => some .print
  | if_ _ => some .if_
  | else_ => some .else_
  | while_ _ => some .while_
  | end_ => some .end_
  | break_ _ => some .break_
  | continue_ _ => some .continue_

theorem keyword?_of_ofKeyword? {k : Keyword} {tokens : List String} {st : Statement}
    (h : ofKeyword? k tokens = some st) : st.keyword? = some k := by
  unfold ofKeyword? at h
  split at h
  case h_8 | h_10 =>
    obtain ⟨e, -, rfl⟩ := Option.map_eq_some_iff.mp h
    rfl
  all_goals cases h <;> rfl

/-- The three ways in which a line gets its statement. -/
theorem ofLine_cases (line : Line) :
    (line.isBlank = true ∧ ofLine line = blank) ∨
    (∃ k tokens, line.tokens = k.text :: tokens ∧ ofKeyword? k tokens = some (ofLine line)) ∨
    (∃ target tokens, line.tokens = target :: tokens ∧
      ofLine line = (assignment? target tokens).getD (unrecognized line.text)) := by
  unfold ofLine
  by_cases hb : line.isBlank = true
  · exact Or.inl ⟨hb, by rw [if_pos hb]⟩
  · rw [if_neg hb]
    cases ht : line.tokens with
    | nil => simp [Line.isBlank, Line.isEmpty, ht] at hb
    | cons head rest =>
      simp only
      cases hs : (Keyword.ofText? head).bind (ofKeyword? · rest) with
      | some st =>
        obtain ⟨k, hk, hst⟩ := Option.bind_eq_some_iff.mp hs
        rw [Keyword.ofText?_eq_some_iff] at hk
        exact Or.inr (Or.inl ⟨k, rest, by rw [hk], hst⟩)
      | none => exact Or.inr (Or.inr ⟨head, rest, rfl, rfl⟩)

theorem keyword?_assignment?_getD (target : String) (tokens : List String) (text : String) :
    ((assignment? target tokens).getD (unrecognized text)).keyword? = none := by
  unfold assignment?
  split
  · cases Expression.ofTokens? _ <;> rfl
  · rfl

/-- The keyword of a statement is the one that its line starts with. -/
theorem keyword?_of_ofLine {line : Line} {k : Keyword} (h : (ofLine line).keyword? = some k) :
    line.keyword? = some k := by
  rcases ofLine_cases line with ⟨-, hs⟩ | ⟨k', tokens, ht, hs⟩ | ⟨target, tokens, -, hs⟩
  · rw [hs] at h
    cases h
  · rw [keyword?_of_ofKeyword? hs, Option.some.injEq] at h
    simp [Line.keyword?, ht, h]
  · rw [hs, keyword?_assignment?_getD] at h
    cases h

theorem isBlank_of_ofLine {line : Line} (h : ofLine line = blank) : line.isBlank = true := by
  rcases ofLine_cases line with ⟨hb, -⟩ | ⟨k, tokens, -, hs⟩ | ⟨target, tokens, -, hs⟩
  · exact hb
  · rw [h] at hs
    cases keyword?_of_ofKeyword? hs
  · rw [h] at hs
    unfold assignment? at hs
    split at hs
    · rename_i tokens'
      cases he : Expression.ofTokens? tokens' <;> simp [he] at hs
    · cases hs

/-- An assignment is written with an equals sign behind its target. -/
theorem tokens_of_ofLine_assign {line : Line} {target : String} {e : Expression}
    (h : ofLine line = assign target e) : line.isBlank = false ∧ ∃ rest, line.tokens = target :: "=" :: rest := by
  have hb : line.isBlank = false := by
    by_contra hb
    rw [ofLine, if_pos (by simpa using hb)] at h
    cases h
  refine ⟨hb, ?_⟩
  rcases ofLine_cases line with ⟨-, hs⟩ | ⟨k, tokens, -, hs⟩ | ⟨head, tokens, ht, hs⟩
  · rw [h] at hs
    cases hs
  · rw [h] at hs
    cases keyword?_of_ofKeyword? hs
  · rw [h] at hs
    unfold assignment? at hs
    split at hs
    · rename_i rest
      cases he : Expression.ofTokens? rest with
      | none => simp [he] at hs
      | some e' =>
        simp only [he, Option.map_some, Option.getD_some, assign.injEq] at hs
        exact ⟨rest, by rw [ht, hs.1]⟩
    · cases hs

theorem keyword?_of_ofLine_assign {line : Line} {target : String} {e : Expression}
    (h : ofLine line = assign target e) : line.keyword? = Keyword.ofText? target := by
  obtain ⟨-, rest, ht⟩ := tokens_of_ofLine_assign h
  simp [Line.keyword?, ht]

end Statement

theorem Listing.keyword?_of_ofLine {listing : Listing} {pc : Nat} {line : Line} {k : Keyword}
    (hline : listing.line? pc = some line) (h : (Statement.ofLine line).keyword? = some k) :
    listing.keyword? pc = some k := by
  simp [keyword?, hline, Statement.keyword?_of_ofLine h]

/-! ### The steps of the machine -/

/-- The line that a move leads to from line `pc`. -/
def Move.target? (pc : Nat) : Move → Option Nat
  | next => some (pc + 1)
  | jump target => some target
  | halt => none

namespace Machine

/-- All that line `pc` can do without ending the run: the environment it leaves and the line that follows.  A line
that is skipped or left by a jump names the line that the jump was computed from. -/
inductive Transition (listing : Listing) (pc : Nat) (env : Environment) : Environment → Nat → Prop
  | pass (hr : listing.role pc = .plain) : Transition listing pc env env (pc + 1)
  | declare {name : String} {ty : Ty} {env' : Environment} (hr : listing.role pc = .plain)
      (h : env.declare name ty = .ok env') : Transition listing pc env env' (pc + 1)
  | store {name : String} {value : Value} {vars : Variables} (hr : listing.role pc = .plain)
      (h : env.vars.store name value = .ok vars) : Transition listing pc env ⟨vars, env.blocks⟩ (pc + 1)
  | enter {env' : Environment} (hr : listing.role pc = .opener) (h : env.openBlock pc = .ok env') :
      Transition listing pc env env' (pc + 1)
  | enterElse {env' : Environment} {j : Nat} (hk : listing.keyword? pc = some .if_)
      (h : env.openBlock pc = .ok env') (hj : listing.elseOrCloser? pc = some j)
      (he : listing.keyword? j = some .else_) : Transition listing pc env env' (j + 1)
  | enterEnd {env' : Environment} {j : Nat} (hk : listing.keyword? pc = some .if_)
      (h : env.openBlock pc = .ok env') (hj : listing.elseOrCloser? pc = some j)
      (he : listing.keyword? j ≠ some .else_) : Transition listing pc env env' j
  | skip {j : Nat} (hk : listing.keyword? pc = some .while_) (hj : listing.closer? pc = some j) :
      Transition listing pc env env (j + 1)
  | alternative {i j : Nat} (hk : listing.keyword? pc = some .else_) (hi : env.opener? 0 = some i)
      (hif : listing.keyword? i = some .if_) (hj : listing.closer? i = some j) : Transition listing pc env env j
  | close {i : Nat} {env' : Environment} (h : env.closeBlock = .ok (i, env'))
      (hk : listing.keyword? pc = some .pop ∨
        (listing.keyword? pc = some .end_ ∧ listing.keyword? i = some .if_)) :
      Transition listing pc env env' (pc + 1)
  | loop {i : Nat} {env' : Environment} (h : env.closeBlock = .ok (i, env'))
      (hk : listing.keyword? pc = some .end_) (hw : listing.keyword? i = some .while_) :
      Transition listing pc env env' i
  | leave {n i j : Nat} {closing : Bool} {env' : Environment} (hr : listing.role pc = .plain)
      (hi : env.opener? n = some i) (hj : listing.closer? i = some j)
      (h : env.closeBlocks (if closing then n + 1 else n) = .ok env') :
      Transition listing pc env env' (if closing then j + 1 else j)

section Lines

variable {listing : Listing} {i j : Nat} {env env' : Environment}

@[simp] theorem attempt_ok (env env' : Environment) (move : Move) :
    attempt env (.ok (env', move)) = ⟨env', [], .ok move⟩ := rfl

@[simp] theorem attempt_error (env : Environment) (cause : Cause) :
    attempt env (.error cause) = ⟨env, [], .error cause⟩ := rfl

theorem endBlock_of_if (hif : listing.keyword? i = some .if_) (h : env.closeBlock = .ok (i, env')) :
    endBlock listing env = ⟨env', [], .ok .next⟩ := by
  simp [endBlock, Environment.opener?_of_closeBlock h, hif, h]

theorem endBlock_of_while (hw : listing.keyword? i = some .while_) (h : env.closeBlock = .ok (i, env')) :
    endBlock listing env = ⟨env', [], .ok (.jump i)⟩ := by
  simp [endBlock, Environment.opener?_of_closeBlock h, hw, h]

theorem leaveElse_of_if (hi : env.opener? 0 = some i) (hif : listing.keyword? i = some .if_)
    (hj : listing.closer? i = some j) : leaveElse listing env = ⟨env, [], .ok (.jump j)⟩ := by
  simp [leaveElse, hi, hif, Listing.closer, hj]

theorem leaveBlocks_of_depth_lt {levels : Nat} {closing : Bool} (h : env.depth < levels) :
    leaveBlocks listing env levels closing = ⟨env, [], .error .unexpectedEndOfScope⟩ := by
  rw [leaveBlocks, if_pos (Or.inr h)]

/-- Blocks that are open and have their ends can be left. -/
theorem exists_leaveBlocks {level : Nat} (closing : Bool) (hd : level < env.depth)
    (hclosers : ∀ i, env.opener? level = some i → ∃ j, listing.closer? i = some j) :
    ∃ i j env', env.opener? level = some i ∧ listing.closer? i = some j ∧
      env.closeBlocks (if closing then level + 1 else level) = .ok env' ∧
      leaveBlocks listing env (level + 1) closing = ⟨env', [], .ok (.jump (if closing then j + 1 else j))⟩ := by
  have hlen : level < env.blocks.items.length := by
    rw [← Environment.depth_eq_length]
    exact hd
  have hi : env.opener? level = some (env.blocks.items[level]) := List.getElem?_eq_getElem hlen
  have hlevels : (if closing then level + 1 else level) ≤ env.depth := by
    split <;> omega
  obtain ⟨j, hj⟩ := hclosers _ hi
  obtain ⟨env', hc⟩ := Environment.exists_closeBlocks hlevels
  refine ⟨_, j, env', hi, hj, hc, ?_⟩
  rw [leaveBlocks, if_neg (by omega), Nat.add_sub_cancel, hi]
  simp [Listing.closer, hj, hc]

end Lines

section Inversion

variable {listing : Listing} {pc target : Nat} {env : Environment} {move : Move}

theorem attempt_eq_ok {result : Except Cause (Environment × Move)}
    (h : (attempt env result).outcome = .ok move) :
    ∃ env', result = .ok (env', move) ∧ attempt env result = ⟨env', [], .ok move⟩ := by
  cases result with
  | error cause => cases h
  | ok r =>
    obtain ⟨env', move'⟩ := r
    cases h
    exact ⟨env', rfl, rfl⟩

theorem transition_of_enterIf {e : Expression} (hk : listing.keyword? pc = some .if_)
    (h : (enterIf listing pc env e).outcome = .ok move) (ht : move.target? pc = some target) :
    Transition listing pc env (enterIf listing pc env e).env target := by
  have hr : listing.role pc = .opener := by rw [Listing.role_of_keyword? hk]; rfl
  unfold enterIf at h ⊢
  cases hc : env.vars.condition e with
  | error cause => simp [hc] at h
  | ok taken =>
    cases ho : env.openBlock pc with
    | error cause => simp [hc, ho] at h
    | ok env' =>
      cases taken with
      | true =>
        simp only [hc, ho, if_true, Except.ok.injEq] at h ⊢
        subst h
        cases ht
        exact .enter hr ho
      | false =>
        simp only [hc, ho, Bool.false_eq_true, if_false] at h ⊢
        obtain ⟨env'', hres, hatt⟩ := attempt_eq_ok h
        rw [hatt]
        obtain ⟨j, hj, hres⟩ := bind_eq_ok_iff.mp hres
        rw [Listing.elseOrCloser_eq_ok_iff] at hj
        split at hres
        · rename_i he
          cases hres
          cases ht
          exact .enterElse hk ho hj he
        · rename_i he
          cases hres
          cases ht
          exact .enterEnd hk ho hj he

theorem transition_of_leaveElse (hk : listing.keyword? pc = some .else_)
    (h : (leaveElse listing env).outcome = .ok move) (ht : move.target? pc = some target) :
    Transition listing pc env (leaveElse listing env).env target := by
  unfold leaveElse at h ⊢
  cases hi : env.opener? 0 with
  | none => simp [hi] at h
  | some i =>
    by_cases hif : listing.keyword? i = some .if_
    · simp only [hi, hif, if_true] at h ⊢
      obtain ⟨env', hres, hatt⟩ := attempt_eq_ok h
      rw [hatt]
      obtain ⟨j, hj, hres⟩ := bind_eq_ok_iff.mp hres
      cases hres
      cases ht
      exact .alternative hk hi hif (Listing.closer_eq_ok_iff.mp hj)
    · simp [hi, hif] at h

theorem transition_of_enterWhile {e : Expression} (hk : listing.keyword? pc = some .while_)
    (h : (enterWhile listing pc env e).outcome = .ok move) (ht : move.target? pc = some target) :
    Transition listing pc env (enterWhile listing pc env e).env target := by
  have hr : listing.role pc = .opener := by rw [Listing.role_of_keyword? hk]; rfl
  unfold enterWhile at h ⊢
  obtain ⟨env', hres, hatt⟩ := attempt_eq_ok h
  rw [hatt]
  obtain ⟨taken, -, hres⟩ := bind_eq_ok_iff.mp hres
  cases taken with
  | true =>
    obtain ⟨env'', ho, hres⟩ := bind_eq_ok_iff.mp hres
    cases hres
    cases ht
    exact .enter hr ho
  | false =>
    obtain ⟨j, hj, hres⟩ := bind_eq_ok_iff.mp hres
    cases hres
    cases ht
    exact .skip hk (Listing.closer_eq_ok_iff.mp hj)

theorem transition_of_endBlock (hk : listing.keyword? pc = some .end_)
    (h : (endBlock listing env).outcome = .ok move) (ht : move.target? pc = some target) :
    Transition listing pc env (endBlock listing env).env target := by
  unfold endBlock at h ⊢
  split at h
  · rename_i hw
    obtain ⟨i, hi, hw⟩ := Option.bind_eq_some_iff.mp hw
    obtain ⟨env', hres, hatt⟩ := attempt_eq_ok h
    rw [hatt]
    obtain ⟨⟨i', env''⟩, hc, hres⟩ := bind_eq_ok_iff.mp hres
    rw [Environment.opener?_of_closeBlock hc, Option.some.injEq] at hi
    subst hi
    cases hres
    cases ht
    exact .loop hc hk hw
  · rename_i hif
    obtain ⟨i, hi, hif⟩ := Option.bind_eq_some_iff.mp hif
    obtain ⟨env', hres, hatt⟩ := attempt_eq_ok h
    rw [hatt]
    obtain ⟨⟨i', env''⟩, hc, hres⟩ := bind_eq_ok_iff.mp hres
    rw [Environment.opener?_of_closeBlock hc, Option.some.injEq] at hi
    subst hi
    cases hres
    cases ht
    exact .close hc (Or.inr ⟨hk, hif⟩)
  · cases h

theorem transition_of_leaveBlocks {levels : Nat} {closing : Bool} (hr : listing.role pc = .plain)
    (h : (leaveBlocks listing env levels closing).outcome = .ok move) (ht : move.target? pc = some target) :
    Transition listing pc env (leaveBlocks listing env levels closing).env target := by
  unfold leaveBlocks at h ⊢
  by_cases hn : levels = 0 ∨ env.depth < levels
  · simp [hn] at h
  · rw [if_neg hn] at h ⊢
    obtain ⟨n, rfl⟩ : ∃ n, levels = n + 1 := ⟨levels - 1, by omega⟩
    rw [Nat.add_sub_cancel] at h ⊢
    cases hi : env.opener? n with
    | none => simp [hi] at h
    | some i =>
      simp only [hi] at h ⊢
      obtain ⟨env', hres, hatt⟩ := attempt_eq_ok h
      rw [hatt]
      obtain ⟨j, hj, hres⟩ := bind_eq_ok_iff.mp hres
      obtain ⟨env'', hc, hres⟩ := bind_eq_ok_iff.mp hres
      cases hres
      cases ht
      exact .leave hr hi (Listing.closer_eq_ok_iff.mp hj) hc

theorem transition_of_leaveNamed {levels : Option String} {closing : Bool} (hr : listing.role pc = .plain)
    (h : (leaveNamed listing env closing levels).outcome = .ok move) (ht : move.target? pc = some target) :
    Transition listing pc env (leaveNamed listing env closing levels).env target := by
  cases levels with
  | none => exact transition_of_leaveBlocks hr h ht
  | some symbol =>
    rw [leaveNamed] at h ⊢
    cases hl : env.vars.levels symbol with
    | error cause => simp [hl] at h
    | ok n =>
      simp only [hl] at h ⊢
      exact transition_of_leaveBlocks hr h ht

/-- An assignment to a name that no variable can have fails. -/
theorem transition_of_assign {line : Line} {name : String} {e : Expression}
    (hv : ∀ d ∈ env.vars.declarations, Name.isReserved d.name = false) (hline : listing.line? pc = some line)
    (hst : Statement.ofLine line = .assign name e) (h : (assign env name e).outcome = .ok move)
    (ht : move.target? pc = some target) : Transition listing pc env (assign env name e).env target := by
  unfold assign at h ⊢
  obtain ⟨env', hres, hatt⟩ := attempt_eq_ok h
  rw [hatt]
  obtain ⟨v, hf, hres⟩ := bind_eq_ok_iff.mp hres
  obtain ⟨value, -, hres⟩ := bind_eq_ok_iff.mp hres
  obtain ⟨vars, hs, hres⟩ := bind_eq_ok_iff.mp hres
  cases hres
  cases ht
  have hmem : name ∈ env.vars.declarations.map Declaration.name := by
    by_contra hn
    rw [← Variables.find?_eq_none_iff] at hn
    simp [Variables.fetch, hn] at hf
  obtain ⟨d, hd, rfl⟩ := List.mem_map.mp hmem
  have hk : line.keyword? = none := by
    rw [Statement.keyword?_of_ofLine_assign hst]
    simpa [Name.isReserved] using hv d hd
  refine .store ?_ hs
  rw [Listing.role_of_line? hline, Line.role, hk]

/-- **The machine makes no other steps.** -/
theorem transition_of_execute {line : Line}
    (hv : ∀ d ∈ env.vars.declarations, Name.isReserved d.name = false) (hline : listing.line? pc = some line)
    (h : (execute listing pc env (.ofLine line)).outcome = .ok move) (ht : move.target? pc = some target) :
    Transition listing pc env (execute listing pc env (.ofLine line)).env target := by
  have hkey : ∀ k, (Statement.ofLine line).keyword? = some k → listing.keyword? pc = some k :=
    fun k hk => Listing.keyword?_of_ofLine hline hk
  generalize hst : Statement.ofLine line = st at h hkey ⊢
  cases st with
  | blank =>
    cases h
    cases ht
    refine .pass ?_
    rw [Listing.role_of_line? hline, Line.role, Line.keyword?_of_isBlank (Statement.isBlank_of_ofLine hst)]
  | exit =>
    cases h
    cases ht
  | declare ty name =>
    obtain ⟨env', hres, hatt⟩ := attempt_eq_ok h
    obtain ⟨env'', hd, hres⟩ := bind_eq_ok_iff.mp hres
    cases hres
    cases ht
    rw [execute, hatt]
    refine .declare ?_ hd
    cases ty <;> exact Listing.role_of_keyword? (hkey _ rfl)
  | push =>
    obtain ⟨env', hres, hatt⟩ := attempt_eq_ok h
    obtain ⟨env'', ho, hres⟩ := bind_eq_ok_iff.mp hres
    cases hres
    cases ht
    rw [execute, hatt]
    exact .enter (Listing.role_of_keyword? (hkey _ rfl)) ho
  | pop =>
    obtain ⟨env', hres, hatt⟩ := attempt_eq_ok h
    obtain ⟨⟨i, env''⟩, hc, hres⟩ := bind_eq_ok_iff.mp hres
    cases hres
    cases ht
    rw [execute, hatt]
    exact .close hc (Or.inl (hkey _ rfl))
  | print name =>
    rw [execute, print] at h ⊢
    cases hf : env.vars.fetch name with
    | error cause => simp [hf] at h
    | ok v =>
      simp only [hf, Except.ok.injEq] at h ⊢
      subst h
      cases ht
      exact .pass (Listing.role_of_keyword? (hkey _ rfl))
  | if_ e => exact transition_of_enterIf (hkey _ rfl) h ht
  | else_ => exact transition_of_leaveElse (hkey _ rfl) h ht
  | while_ e => exact transition_of_enterWhile (hkey _ rfl) h ht
  | end_ => exact transition_of_endBlock (hkey _ rfl) h ht
  | break_ levels => exact transition_of_leaveNamed (Listing.role_of_keyword? (hkey _ rfl)) h ht
  | continue_ levels => exact transition_of_leaveNamed (Listing.role_of_keyword? (hkey _ rfl)) h ht
  | assign name e => exact transition_of_assign hv hline hst h ht
  | untyped | unrecognized => cases h

end Inversion

/-! ### One round of the loop -/

section Rounds

variable {listing : Listing} {limit : Option Nat}

/-- A round that goes on executes a line and follows its move. -/
theorem turn_eq_more {s s' : State} {calls : List Call} (h : turn listing limit s = .more s' calls) :
    ∃ line move, listing.line? s.pc = some line ∧ exhausted? limit s.steps = none ∧
      (execute listing s.pc s.env (.ofLine line)).outcome = .ok move ∧
      (execute listing s.pc s.env (.ofLine line)).calls = calls ∧
      move.target? s.pc = some s'.pc ∧ s'.steps = s.steps + 1 ∧
      s'.env = (execute listing s.pc s.env (.ofLine line)).env := by
  unfold turn at h
  cases hline : listing.line? s.pc with
  | none =>
    simp only [hline, fail] at h
    split at h <;> cases h
  | some line =>
    cases hlim : exhausted? limit s.steps with
    | some cause => simp [hline, hlim, fail] at h
    | none =>
      simp only [hline, hlim] at h
      refine ⟨line, ?_⟩
      cases ho : (execute listing s.pc s.env (.ofLine line)).outcome with
      | error cause => simp [ho, fail] at h
      | ok move =>
        cases move with
        | halt => simp [ho] at h
        | next =>
          simp only [ho, Turn.more.injEq] at h
          obtain ⟨rfl, rfl⟩ := h
          exact ⟨.next, rfl, rfl, rfl, rfl, rfl, rfl, rfl⟩
        | jump target =>
          simp only [ho, Turn.more.injEq] at h
          obtain ⟨rfl, rfl⟩ := h
          exact ⟨.jump target, rfl, rfl, rfl, rfl, rfl, rfl, rfl⟩

theorem transition_of_turn {s s' : State} {calls : List Call}
    (hv : ∀ d ∈ s.env.vars.declarations, Name.isReserved d.name = false)
    (h : turn listing limit s = .more s' calls) : Transition listing s.pc s.env s'.env s'.pc := by
  obtain ⟨line, move, hline, -, ho, -, ht, -, henv⟩ := turn_eq_more h
  rw [henv]
  exact transition_of_execute hv hline ho ht

/-- What a transition does, whatever line it leads to. -/
theorem Transition.change {pc target : Nat} {env env' : Environment} (h : Transition listing pc env env' target) :
    env.Change pc env' := by
  cases h with
  | pass | skip | alternative => exact .keep rfl rfl
  | declare _ h => exact .declare h
  | store _ h => exact .keep rfl (Variables.declarations_store h)
  | enter _ h | enterElse _ h | enterEnd _ h => exact .enter h
  | close h | loop h => exact .leave (Environment.closeBlocks_one h)
  | @leave n i j closing env' _ _ _ h =>
    cases closing with
    | true => exact .leave h
    | false =>
      cases n with
      | zero => cases h; exact .keep rfl rfl
      | succ n => exact .leave h

/-- The ways in which a run ends in a state, with the calls of the last round. -/
inductive Ending (listing : Listing) (limit : Option Nat) (s : State) : Event → List Call → Prop
  | finished (hpc : listing.size ≤ s.pc) (hd : s.env.depth = 0) : Ending listing limit s .finished []
  | unterminated (hpc : listing.size ≤ s.pc) (hd : s.env.depth ≠ 0) :
      Ending listing limit s (.failed ⟨.unterminatedScope, some listing.size⟩)
        [.error (Fault.report ⟨.unterminatedScope, some listing.size⟩)]
  | exhausted {line : Line} {cause : Cause} (hline : listing.line? s.pc = some line)
      (h : exhausted? limit s.steps = some cause) :
      Ending listing limit s (.failed ⟨cause, some s.pc⟩) [.error (Fault.report ⟨cause, some s.pc⟩)]
  | exited {line : Line} (hline : listing.line? s.pc = some line) (hlim : exhausted? limit s.steps = none)
      (h : (execute listing s.pc s.env (.ofLine line)).outcome = .ok .halt) :
      Ending listing limit s .exited (execute listing s.pc s.env (.ofLine line)).calls
  | failed {line : Line} {cause : Cause} (hline : listing.line? s.pc = some line)
      (hlim : exhausted? limit s.steps = none)
      (h : (execute listing s.pc s.env (.ofLine line)).outcome = .error cause) :
      Ending listing limit s (.failed ⟨cause, some s.pc⟩)
        ((execute listing s.pc s.env (.ofLine line)).calls ++ [.error (Fault.report ⟨cause, some s.pc⟩)])

theorem ending_of_turn {s : State} {event : Event} {calls : List Call}
    (h : turn listing limit s = .done event calls) : Ending listing limit s event calls := by
  unfold turn at h
  cases hline : listing.line? s.pc with
  | none =>
    have hpc := Listing.line?_eq_none_iff.mp hline
    simp only [hline, fail] at h
    split at h
    · rename_i hd
      cases h
      exact .finished hpc hd
    · rename_i hd
      cases h
      exact .unterminated hpc hd
  | some line =>
    cases hlim : exhausted? limit s.steps with
    | some cause =>
      simp only [hline, hlim, fail] at h
      cases h
      exact .exhausted hline hlim
    | none =>
      simp only [hline, hlim] at h
      cases ho : (execute listing s.pc s.env (.ofLine line)).outcome with
      | error cause =>
        simp only [ho, fail] at h
        cases h
        exact .failed hline hlim ho
      | ok move =>
        cases move with
        | next => simp [ho] at h
        | jump target => simp [ho] at h
        | halt =>
          simp only [ho] at h
          cases h
          exact .exited hline hlim ho

/-! ### The states of a run -/

/-- The state in which the run goes on. -/
def Turn.state? : Turn → Option State
  | more s _ => some s
  | done _ _ => none

/-- The state at the top of the loop after `n` lines, if the run has not ended before. -/
def stateAt (listing : Listing) (limit : Option Nat) : Nat → Option State
  | 0 => some .initial
  | n + 1 => (stateAt listing limit n).bind fun s => (turn listing limit s).state?

theorem stateAt_succ_eq_some {n : Nat} {s' : State} (h : stateAt listing limit (n + 1) = some s') :
    ∃ s calls, stateAt listing limit n = some s ∧ turn listing limit s = .more s' calls := by
  obtain ⟨s, hs, ht⟩ := Option.bind_eq_some_iff.mp h
  cases hturn : turn listing limit s with
  | more s'' calls =>
    rw [hturn] at ht
    cases ht
    exact ⟨s, calls, hs, hturn⟩
  | done event calls =>
    rw [hturn] at ht
    cases ht

theorem stateAt_succ {n : Nat} {s s' : State} {calls : List Call} (h : stateAt listing limit n = some s)
    (ht : turn listing limit s = .more s' calls) : stateAt listing limit (n + 1) = some s' := by
  simp [stateAt, h, ht, Turn.state?]

theorem wellScoped_of_stateAt {n : Nat} {s : State} (h : stateAt listing limit n = some s) :
    s.env.vars.WellScoped s.env.depth := by
  induction n generalizing s with
  | zero =>
    cases h
    exact Variables.wellScoped_empty
  | succ n ih =>
    obtain ⟨s₀, calls, hs, ht⟩ := stateAt_succ_eq_some h
    have htr := transition_of_turn (fun d hd => ((ih hs).valid d hd).2) ht
    exact htr.change.wellScoped (ih hs)

/-- Neighbouring states of a run are related by a transition. -/
theorem transition_of_stateAt {n : Nat} {s s' : State} (h : stateAt listing limit n = some s)
    (h' : stateAt listing limit (n + 1) = some s') : Transition listing s.pc s.env s'.env s'.pc := by
  obtain ⟨s₀, calls, hs, ht⟩ := stateAt_succ_eq_some h'
  rw [h, Option.some.injEq] at hs
  subst hs
  exact transition_of_turn (fun d hd => ((wellScoped_of_stateAt h).valid d hd).2) ht

/-- A run that ends does so in one of its states. -/
theorem exists_ending_of_runFrom {fuel n : Nat} {s : State} {made calls : Array Call} {event : Event}
    (hs : stateAt listing limit n = some s) (h : runFrom listing limit fuel s made = some (event, calls)) :
    ∃ n s last, stateAt listing limit n = some s ∧ Ending listing limit s event last := by
  induction fuel generalizing n s made with
  | zero => cases h
  | succ fuel ih =>
    rw [runFrom] at h
    cases ht : turn listing limit s with
    | more s' last =>
      rw [ht] at h
      exact ih (stateAt_succ hs ht) h
    | done event' last =>
      rw [ht] at h
      cases h
      exact ⟨n, s, last, hs, ending_of_turn ht⟩

end Rounds

end Machine

end LineScript
