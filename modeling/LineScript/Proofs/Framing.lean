import LineScript.Proofs.LeavingBlocks
import LineScript.Proofs.Reporting

/-!
# LineScript.Proofs.Framing — what a line leaves alone

A line that fails changes nothing, with one exception: an `if` opens its block before it looks for the end of it.  A
line that succeeds changes the table of variables in one of three ways, which its first words tell.

* `Variables.toList_of_store`: an assignment replaces one value in its place.
* `Machine.atomic_execute`, `Machine.enterIf_of_error`: what failing lines leave behind.
* `Statement.Affects`, `Machine.affects_of_execute`: what a statement that succeeds does to the table.
* `Machine.exists_assign_of_equals`: a line with an equals sign behind its first word can only succeed as an assignment.
* `Machine.statements_framed`: what every line leaves alone.
-/

namespace LineScript

/-! ### The table of variables -/

namespace Variables

variable {vars vars' : Variables} {name : String} {value : Value}

theorem replaceValue_append {v : Variable} {newer older : List Variable} (hnew : ∀ w ∈ newer, w.name ≠ name)
    (hv : v.name = name) :
    replaceValue name value (newer ++ v :: older) = newer ++ ⟨v.name, v.scope, value⟩ :: older := by
  induction newer with
  | nil => simp [replaceValue, hv]
  | cons w newer ih =>
    have hw : w.name ≠ name := hnew w List.mem_cons_self
    rw [List.cons_append, replaceValue, if_neg (by simpa using hw),
      ih fun x hx => hnew x (List.mem_cons_of_mem w hx), List.cons_append]

/-- An assignment replaces the value of one variable in its place by one of the same type. -/
theorem toList_of_store (hd : (vars.declarations.map Declaration.name).Nodup)
    (h : vars.store name value = .ok vars') :
    ∃ older v newer, vars.toList = older ++ v :: newer ∧ v.name = name ∧ (∀ w ∈ older ++ newer, w.name ≠ name) ∧
      value.ty = v.ty ∧ vars'.toList = older ++ ⟨v.name, v.scope, value⟩ :: newer := by
  unfold store at h
  split at h
  · rename_i v hf
    split at h
    · rename_i hty
      cases h
      obtain ⟨hname, newer, older, hsplit, hnew⟩ := List.find?_eq_some_iff_append.mp hf
      have hv : v.name = name := by simpa using hname
      have hlist : vars.toList = older.reverse ++ v :: newer.reverse := by simp [toList, hsplit]
      -- the search goes from the newest variable down, and distinct names make it the only one of its name
      have hothers : ∀ w ∈ older.reverse ++ newer.reverse, w.name ≠ name := by
        have hnames : vars.declarations.map Declaration.name = vars.toList.map Variable.name := by
          simp [declarations, Variable.declaration, Function.comp_def]
        rw [hnames, hlist, List.map_append, List.map_cons, List.nodup_middle, List.nodup_cons, ← List.map_append,
          hv] at hd
        exact fun w hw hn => hd.1 (List.mem_map.mpr ⟨w, hw, hn⟩)
      refine ⟨older.reverse, v, newer.reverse, hlist, hv, hothers, hty.symm, ?_⟩
      rw [update, hsplit, replaceValue_append (fun w hw => by simpa using hnew w hw) hv]
      simp [toList]
    · cases h
  · cases h

/-- No variable is called `=`. -/
theorem find?_equals (hv : ∀ d ∈ vars.declarations, Name.isWellFormed d.name = true) : vars.find? "=" = none := by
  rw [find?_eq_none_iff]
  intro hmem
  obtain ⟨d, hd, hname⟩ := List.mem_map.mp hmem
  have hwf := hv d hd
  rw [hname] at hwf
  exact absurd hwf (by decide)

theorem resolve_equals (hv : ∀ d ∈ vars.declarations, Name.isWellFormed d.name = true) (ty : Ty) :
    vars.resolve "=" ty = .error (.unresolvedSymbol "=") := by
  have hno : Literal.parse? "=" ty = none := by cases ty <;> rfl
  rw [resolve, find?_equals hv]
  simp [hno]

end Variables

/-! ### Statements and their first symbols -/

/-- The token that an expression starts with. -/
def Expression.first : Expression → String
  | symbol a => a
  | unary op _ => op
  | binary l _ _ => l

theorem Expression.head?_of_ofTokens? {tokens : List String} {e : Expression} (h : ofTokens? tokens = some e) :
    tokens.head? = some e.first := by
  unfold ofTokens? at h
  split at h <;> cases h <;> rfl

theorem Variables.condition_of_equals {vars : Variables} {e : Expression} {taken : Bool}
    (hv : ∀ d ∈ vars.declarations, Name.isWellFormed d.name = true) (he : e.first = "=") :
    vars.condition e ≠ .ok taken := by
  intro h
  obtain ⟨value, htest, -⟩ := bind_eq_ok_iff.mp h
  cases e with
  | symbol a =>
    rw [Expression.first] at he
    rw [he, tested, resolve_equals hv] at htest
    cases htest
  | unary op a =>
    rw [Expression.first] at he
    rw [he] at htest
    cases htest
  | binary l op r =>
    have hfails : ∀ ty, vars.evaluate "=" op r ty ≠ .ok value := by
      intro ty heval
      rw [evaluate, resolve_equals hv] at heval
      cases heval
    rw [Expression.first] at he
    rw [he, tested] at htest
    split at htest
    · exact hfails _ htest
    · exact hfails _ htest
    · obtain ⟨ty, -, heval⟩ := bind_eq_ok_iff.mp htest
      exact hfails ty heval

/-- Keywords whose lines can drop variables. -/
def Keyword.drops : Keyword → Bool
  | pop | end_ | break_ | continue_ => true
  | _ => false

namespace Statement

/-- The token behind the keyword of a statement. -/
def firstSymbol? : Statement → Option String
  | declare _ name | print name => some name
  | if_ e | while_ e => some e.first
  | break_ levels | continue_ levels => levels
  | _ => none

theorem firstSymbol?_of_ofKeyword? {k : Keyword} {tokens : List String} {st : Statement}
    (h : ofKeyword? k tokens = some st) : st.firstSymbol? = tokens.head? := by
  unfold ofKeyword? at h
  split at h
  case h_8 | h_10 =>
    obtain ⟨e, he, rfl⟩ := Option.map_eq_some_iff.mp h
    exact (Expression.head?_of_ofTokens? he).symm
  all_goals cases h <;> rfl

/-- How the table can change when a statement succeeds. -/
def Affects (env : Environment) (vars' : Variables) : Statement → Prop
  | declare ty name => vars'.toList = env.vars.toList ++ [⟨name, env.depth, .zero ty⟩]
  | pop | end_ | break_ _ | continue_ _ => vars'.toList <+: env.vars.toList
  | assign name _ => ∃ value, env.vars.store name value = .ok vars'
  | _ => vars' = env.vars

/-- The keyword of a statement tells how the table can change. -/
theorem Affects.of_keyword? {env : Environment} {vars' : Variables} {st : Statement} {k : Keyword}
    (h : st.Affects env vars') (hk : st.keyword? = some k) :
    (∀ ty, Ty.ofKeyword? k = some ty → ∃ name, st.firstSymbol? = some name ∧
      vars'.toList = env.vars.toList ++ [⟨name, env.depth, .zero ty⟩]) ∧
    (k.drops = true → vars'.toList <+: env.vars.toList) ∧
    (Ty.ofKeyword? k = none → k.drops = false → vars' = env.vars) := by
  cases st with
  | declare ty name =>
    have hty : Ty.ofKeyword? k = some ty := by cases ty <;> cases hk <;> rfl
    refine ⟨?_, ?_, ?_⟩
    · intro ty' hty'
      rw [hty, Option.some.injEq] at hty'
      subst hty'
      exact ⟨name, rfl, h⟩
    · intro hd
      cases ty <;> cases hk <;> cases hd
    · intro hno
      rw [hty] at hno
      cases hno
  | pop | end_ | break_ | continue_ =>
    cases hk
    refine ⟨?_, fun _ => h, ?_⟩
    · intro ty hty
      cases hty
    · intro _ hd
      cases hd
  | exit | push | print | if_ | else_ | while_ =>
    cases hk
    refine ⟨?_, ?_, fun _ _ => h⟩
    · intro ty hty
      cases hty
    · intro hd
      cases hd
  | blank | untyped | assign | unrecognized => cases hk

end Statement

namespace Machine

variable {listing : Listing} {limit : Option Nat}

section Lines

variable {pc : Nat} {env : Environment} {cause : Cause} {move : Move}

/-! ### Lines that fail -/

theorem atomic_print (env : Environment) (name : String) : (print env name).Atomic env := by
  unfold print
  split
  · intro cause h
    cases h
  · exact atomic_error env _

theorem atomic_leaveElse (listing : Listing) (env : Environment) : (leaveElse listing env).Atomic env := by
  unfold leaveElse
  split
  · split
    · exact atomic_attempt env _
    · exact atomic_error env _
  · exact atomic_error env _

theorem atomic_endBlock (listing : Listing) (env : Environment) : (endBlock listing env).Atomic env := by
  unfold endBlock
  split
  · exact atomic_attempt env _
  · exact atomic_attempt env _
  · exact atomic_error env _

theorem atomic_leaveNamed (listing : Listing) (env : Environment) (closing : Bool) (levels : Option String) :
    (leaveNamed listing env closing levels).Atomic env := by
  unfold leaveNamed
  split
  · exact atomic_leaveBlocks listing env 1 closing
  · split
    · exact atomic_leaveBlocks listing env _ closing
    · exact atomic_error env _

/-- Every statement but an `if` leaves everything as it was if it fails. -/
theorem atomic_execute {st : Statement} (hif : ∀ e, st ≠ .if_ e) : (execute listing pc env st).Atomic env := by
  cases st with
  | blank | exit =>
    intro cause h
    cases h
  | declare | push | pop | while_ | assign => exact atomic_attempt env _
  | print name => exact atomic_print env name
  | if_ e => exact absurd rfl (hif e)
  | else_ => exact atomic_leaveElse listing env
  | end_ => exact atomic_endBlock listing env
  | break_ levels | continue_ levels => exact atomic_leaveNamed listing env _ levels
  | untyped | unrecognized => exact atomic_error env _

/-- An `if` that fails leaves everything as it was, unless its condition is false, there is room for its block, and
neither an `else` nor the end of the block is found: then the block is open. -/
theorem enterIf_of_error {e : Expression} (h : (enterIf listing pc env e).outcome = .error cause) :
    (enterIf listing pc env e = ⟨env, [], .error cause⟩ ∧
      ¬ (env.vars.condition e = .ok false ∧ env.depth < Stack.limit ∧ listing.elseOrCloser? pc = none)) ∨
    (env.vars.condition e = .ok false ∧ listing.elseOrCloser? pc = none ∧
      ∃ env', env.openBlock pc = .ok env' ∧ enterIf listing pc env e = ⟨env', [], .error cause⟩) := by
  unfold enterIf at h ⊢
  cases hc : env.vars.condition e with
  | error cause' =>
    rw [hc] at h
    cases h
    exact Or.inl ⟨rfl, by simp⟩
  | ok taken =>
    cases ho : env.openBlock pc with
    | error cause' =>
      rw [hc, ho] at h
      cases h
      have hfull := (Environment.openBlock_eq_error ho).1
      exact Or.inl ⟨rfl, fun hno => absurd hno.2.1 (Nat.not_lt.mpr hfull)⟩
    | ok env' =>
      rw [hc, ho] at h
      cases taken with
      | true => cases h
      | false =>
        cases hj : listing.elseOrCloser? pc with
        | none =>
          refine Or.inr ⟨rfl, rfl, env', rfl, ?_⟩
          simp only [Bool.false_eq_true, if_false] at h ⊢
          exact atomic_attempt env' _ cause h
        | some j =>
          simp only [Bool.false_eq_true, if_false, Listing.elseOrCloser, hj, ok_bind] at h
          split at h <;> cases h

/-! ### Lines that succeed -/

theorem vars_of_enterIf (listing : Listing) (pc : Nat) (env : Environment) (e : Expression) :
    (enterIf listing pc env e).env.vars = env.vars := by
  unfold enterIf
  cases env.vars.condition e with
  | error cause => rfl
  | ok taken =>
    cases ho : env.openBlock pc with
    | error cause => rfl
    | ok env' =>
      rw [← Environment.vars_of_openBlock ho]
      cases taken with
      | true => rfl
      | false =>
        cases hj : listing.elseOrCloser? pc with
        | none => simp [Listing.elseOrCloser, hj]
        | some j =>
          simp only [Bool.false_eq_true, if_false, Listing.elseOrCloser, hj, ok_bind]
          split <;> rfl

theorem vars_of_enterWhile (listing : Listing) (pc : Nat) (env : Environment) (e : Expression) :
    (enterWhile listing pc env e).env.vars = env.vars := by
  unfold enterWhile
  cases env.vars.condition e with
  | error cause => rfl
  | ok taken =>
    cases taken with
    | true =>
      cases ho : env.openBlock pc with
      | error cause => rfl
      | ok env' => exact Environment.vars_of_openBlock ho
    | false => cases listing.closer pc <;> rfl

theorem env_leaveElse (listing : Listing) (env : Environment) : (leaveElse listing env).env = env := by
  unfold leaveElse
  cases env.opener? 0 with
  | none => rfl
  | some i =>
    dsimp only
    split
    · cases listing.closer i <;> rfl
    · rfl

theorem prefix_of_closeBlock {i : Nat} {env' : Environment} (h : env.closeBlock = .ok (i, env')) :
    env'.vars.toList <+: env.vars.toList := by
  rw [(Environment.closeBlock_eq_ok_iff.mp h).2]
  exact (Variables.longestBelow_dispose _ _).initial

theorem prefix_of_closeBlocks {n : Nat} {env' : Environment} (h : env.closeBlocks n = .ok env') :
    env'.vars.toList <+: env.vars.toList := by
  rw [(Environment.closeBlocks_eq_ok_iff.mp h).2.2]
  split
  · exact List.prefix_refl _
  · exact (Variables.longestBelow_dispose _ _).initial

theorem prefix_of_endBlock (listing : Listing) (env : Environment) :
    (endBlock listing env).env.vars.toList <+: env.vars.toList := by
  unfold endBlock
  split
  · cases hc : env.closeBlock with
    | error cause => exact List.prefix_refl _
    | ok r => exact prefix_of_closeBlock hc
  · cases hc : env.closeBlock with
    | error cause => exact List.prefix_refl _
    | ok r => exact prefix_of_closeBlock hc
  · exact List.prefix_refl _

theorem prefix_of_leaveBlocks (listing : Listing) (env : Environment) (levels : Nat) (closing : Bool) :
    (leaveBlocks listing env levels closing).env.vars.toList <+: env.vars.toList := by
  unfold leaveBlocks
  split
  · exact List.prefix_refl _
  · split
    · exact List.prefix_refl _
    · rename_i i _
      cases listing.closer i with
      | error cause => exact List.prefix_refl _
      | ok j =>
        rw [ok_bind]
        cases hc : env.closeBlocks (if closing then levels else levels - 1) with
        | error cause => exact List.prefix_refl _
        | ok env' => exact prefix_of_closeBlocks hc

theorem prefix_of_leaveNamed (listing : Listing) (env : Environment) (closing : Bool) (levels : Option String) :
    (leaveNamed listing env closing levels).env.vars.toList <+: env.vars.toList := by
  cases levels with
  | none => exact prefix_of_leaveBlocks listing env 1 closing
  | some symbol =>
    rw [leaveNamed]
    cases env.vars.levels symbol with
    | error cause => exact List.prefix_refl _
    | ok levels => exact prefix_of_leaveBlocks listing env levels closing

/-- **What a statement that succeeds does to the table.** -/
theorem affects_of_execute {st : Statement} (h : (execute listing pc env st).outcome = .ok move) :
    st.Affects env (execute listing pc env st).env.vars := by
  cases st with
  | blank | exit => exact rfl
  | declare ty name =>
    obtain ⟨env', hres, hatt⟩ := attempt_eq_ok h
    obtain ⟨env'', hd, hres⟩ := bind_eq_ok_iff.mp hres
    cases hres
    rw [execute, hatt]
    exact Variables.toList_of_declare_eq_ok (Environment.declare_eq_ok_iff.mp hd).1
  | push =>
    obtain ⟨env', hres, hatt⟩ := attempt_eq_ok h
    obtain ⟨env'', ho, hres⟩ := bind_eq_ok_iff.mp hres
    cases hres
    rw [execute, hatt]
    exact Environment.vars_of_openBlock ho
  | pop =>
    obtain ⟨env', hres, hatt⟩ := attempt_eq_ok h
    obtain ⟨⟨i, env''⟩, hc, hres⟩ := bind_eq_ok_iff.mp hres
    cases hres
    rw [execute, hatt]
    exact prefix_of_closeBlock hc
  | print name =>
    rw [execute, print]
    cases env.vars.fetch name <;> exact rfl
  | if_ e => exact vars_of_enterIf listing pc env e
  | else_ => exact congrArg Environment.vars (env_leaveElse listing env)
  | while_ e => exact vars_of_enterWhile listing pc env e
  | end_ => exact prefix_of_endBlock listing env
  | break_ levels | continue_ levels => exact prefix_of_leaveNamed listing env _ levels
  | assign name e =>
    obtain ⟨env', hres, hatt⟩ := attempt_eq_ok h
    obtain ⟨v, -, hres⟩ := bind_eq_ok_iff.mp hres
    obtain ⟨value, -, hres⟩ := bind_eq_ok_iff.mp hres
    obtain ⟨vars, hs, hres⟩ := bind_eq_ok_iff.mp hres
    cases hres
    rw [execute, assign, hatt]
    exact ⟨value, hs⟩
  | untyped | unrecognized => cases h

theorem blocks_of_assign {name : String} {e : Expression} (h : (assign env name e).outcome = .ok move) :
    (assign env name e).env.blocks = env.blocks := by
  unfold assign at h ⊢
  obtain ⟨env', hres, hatt⟩ := attempt_eq_ok h
  obtain ⟨v, -, hres⟩ := bind_eq_ok_iff.mp hres
  obtain ⟨value, -, hres⟩ := bind_eq_ok_iff.mp hres
  obtain ⟨vars, -, hres⟩ := bind_eq_ok_iff.mp hres
  cases hres
  rw [hatt]

/-! ### Lines with an equals sign -/

/-- A statement that starts with an equals sign behind its keyword fails. -/
theorem execute_of_equals {st : Statement} (hv : ∀ d ∈ env.vars.declarations, Name.isWellFormed d.name = true)
    (hst : st.firstSymbol? = some "=") : (execute listing pc env st).outcome ≠ .ok move := by
  intro h
  cases st with
  | declare ty name =>
    cases hst
    obtain ⟨env', hres, -⟩ := attempt_eq_ok h
    obtain ⟨env'', hd, -⟩ := bind_eq_ok_iff.mp hres
    have hwf := (Variables.valid_of_declare (Environment.declare_eq_ok_iff.mp hd).1).2.1
    exact absurd hwf (by decide)
  | print name =>
    cases hst
    rw [execute, print, Variables.fetch, Variables.find?_equals hv] at h
    cases h
  | if_ e =>
    rw [execute, enterIf] at h
    cases hc : env.vars.condition e with
    | error cause =>
      rw [hc] at h
      cases h
    | ok taken => exact Variables.condition_of_equals hv (Option.some.inj hst) hc
  | while_ e =>
    obtain ⟨env', hres, -⟩ := attempt_eq_ok h
    obtain ⟨taken, hc, -⟩ := bind_eq_ok_iff.mp hres
    exact Variables.condition_of_equals hv (Option.some.inj hst) hc
  | break_ levels | continue_ levels =>
    cases hst
    rw [execute, leaveNamed, Variables.levels, Variables.resolve_equals hv] at h
    cases h
  | blank | exit | untyped | push | pop | else_ | end_ | assign | unrecognized => cases hst

/-- A line with an equals sign behind its first token can only succeed as an assignment. -/
theorem exists_assign_of_equals {line : Line} {name : String} {rest : List String}
    (hv : ∀ d ∈ env.vars.declarations, Name.isWellFormed d.name = true) (hb : line.isBlank = false)
    (ht : line.tokens = name :: "=" :: rest) (h : (execute listing pc env (.ofLine line)).outcome = .ok move) :
    ∃ e, Statement.ofLine line = .assign name e := by
  rcases Statement.ofLine_cases line with ⟨hblank, -⟩ | ⟨k, tokens, hk, hs⟩ | ⟨target, tokens, htarget, hs⟩
  · rw [hb] at hblank
    cases hblank
  · -- a keyword takes the equals sign for an operand, which it cannot be
    rw [ht] at hk
    cases hk
    exact absurd h (execute_of_equals hv (Statement.firstSymbol?_of_ofKeyword? hs))
  · rw [ht] at htarget
    cases htarget
    rw [Statement.assignment?] at hs
    cases he : Expression.ofTokens? rest with
    | some e => exact ⟨e, by rw [hs, he]; rfl⟩
    | none =>
      rw [hs, he] at h
      cases h

/-- Every other line succeeds as a blank line or by its keyword. -/
theorem keyword_of_success {line : Line} (hno : line.isBlank = true ∨ ∀ name rest, line.tokens ≠ name :: "=" :: rest)
    (h : (execute listing pc env (.ofLine line)).outcome = .ok move) :
    (line.keyword? = none ∧ Statement.ofLine line = .blank) ∨
      ∃ k tokens, line.tokens = k.text :: tokens ∧ Statement.ofKeyword? k tokens = some (.ofLine line) := by
  rcases Statement.ofLine_cases line with ⟨hb, hs⟩ | hkey | ⟨target, tokens, ht, hs⟩
  · exact Or.inl ⟨Line.keyword?_of_isBlank hb, hs⟩
  · exact Or.inr hkey
  · rcases hno with hb | hno
    · exact Or.inl ⟨Line.keyword?_of_isBlank hb, by rw [Statement.ofLine, if_pos hb]⟩
    · unfold Statement.assignment? at hs
      split at hs
      · exact absurd ht (hno target _)
      · rw [hs] at h
        cases h

end Lines

/-- Line `pc` is an `if` whose condition is false and which has neither an `else` of its own nor an end. -/
def Stranded (listing : Listing) (s : State) (line : Line) : Prop :=
  ∃ e, Statement.ofLine line = .if_ e ∧ s.env.vars.condition e = .ok false ∧
    listing.elsesOf s.pc = ∅ ∧ listing.endsBehind s.pc = ∅

/-- A stranded `if` leaves its block open if there is room for it; every other line that fails changes nothing. -/
theorem frame_of_error {s : State} {line : Line} {cause : Cause} (hline : listing.line? s.pc = some line)
    (h : (execute listing s.pc s.env (.ofLine line)).outcome = .error cause) :
    (¬ (Stranded listing s line ∧ s.env.depth < Stack.limit) ∧
      execute listing s.pc s.env (.ofLine line) = ⟨s.env, [], .error cause⟩) ∨
    (Stranded listing s line ∧ s.env.depth < Stack.limit ∧
      ∃ env', s.env.openBlock s.pc = .ok env' ∧
        execute listing s.pc s.env (.ofLine line) = ⟨env', [], .error cause⟩) := by
  by_cases hif : ∃ e, Statement.ofLine line = .if_ e
  · obtain ⟨e, he⟩ := hif
    have hrole : listing.role s.pc = .opener :=
      Listing.role_eq_opener_iff.mpr (Or.inr (Or.inl (Listing.keyword?_of_ofLine hline (by rw [he]; rfl))))
    have hnone := Listing.elseOrCloser?_eq_none_iff hrole
    rw [he] at h ⊢
    rcases enterIf_of_error h with ⟨hreact, hno⟩ | ⟨hc, hj, env', ho, hreact⟩
    · refine Or.inl ⟨?_, hreact⟩
      rintro ⟨⟨e', he', hc, hends⟩, hd⟩
      rw [he, Statement.if_.injEq] at he'
      subst he'
      exact hno ⟨hc, hd, hnone.mpr hends⟩
    · exact Or.inr ⟨⟨e, he, hc, hnone.mp hj⟩, (Environment.openBlock_eq_ok_iff.mp ho).1, env', ho, hreact⟩
  · refine Or.inl ⟨?_, atomic_execute (fun e he => hif ⟨e, he⟩) cause h⟩
    rintro ⟨⟨e, he, -⟩, -⟩
    exact hif ⟨e, he⟩

/-- **Every line is atomic and framed.**  In every state of a run, a line that fails leaves the variables, the terminal
and the open blocks as they were, but for an `if` whose condition is false and which has neither an `else` of its own
nor an end: that has opened its block, if there was room for it.  An assignment that succeeds changes one value, that of
its target, to another of the same type, and nothing else.  On every other line that succeeds the table is the same, but
for a declaration, which adds one zero at its end, and for `pop`, `end`, `break` and `continue`, which drop variables
from its end. -/
theorem statements_framed {listing : Listing} {limit : Option Nat} {t : Nat} {s : State} {line : Line} {r : Reaction}
    (hs : stateAt listing limit t = some s) (hline : listing.line? s.pc = some line)
    (hr : execute listing s.pc s.env (.ofLine line) = r) :
    (∀ cause, r.outcome = .error cause →
      r.env.vars = s.env.vars ∧ r.calls = [] ∧
      (Stranded listing s line ∧ s.env.depth < Stack.limit → r.env.blocks.items = s.pc :: s.env.blocks.items) ∧
      (¬ (Stranded listing s line ∧ s.env.depth < Stack.limit) → r.env.blocks = s.env.blocks)) ∧
    (∀ name rest move, line.isBlank = false → line.tokens = name :: "=" :: rest → r.outcome = .ok move →
      r.env.blocks = s.env.blocks ∧ r.calls = [] ∧
      ∃ older v newer value, s.env.vars.toList = older ++ v :: newer ∧ v.name = name ∧
        (∀ w ∈ older ++ newer, w.name ≠ name) ∧ value.ty = v.ty ∧
        r.env.vars.toList = older ++ ⟨v.name, v.scope, value⟩ :: newer) ∧
    (∀ move, (line.isBlank = true ∨ ∀ name rest, line.tokens ≠ name :: "=" :: rest) → r.outcome = .ok move →
      (∀ k ty, line.keyword? = some k → Ty.ofKeyword? k = some ty →
        ∃ name, line.tokens[1]? = some name ∧
          r.env.vars.toList = s.env.vars.toList ++ [⟨name, s.env.depth, .zero ty⟩]) ∧
      (∀ k, line.keyword? = some k → k.drops = true → r.env.vars.toList <+: s.env.vars.toList) ∧
      ((∀ k, line.keyword? = some k → Ty.ofKeyword? k = none ∧ k.drops = false) → r.env.vars = s.env.vars)) := by
  subst hr
  refine ⟨?_, ?_, ?_⟩
  · intro cause h
    rcases frame_of_error hline h with ⟨hno, hreact⟩ | ⟨hst, hd, env', ho, hreact⟩
    · rw [hreact]
      exact ⟨rfl, rfl, fun hyes => absurd hyes hno, fun _ => rfl⟩
    · rw [hreact]
      obtain ⟨-, hvars, hblocks⟩ := Environment.openBlock_eq_ok_iff.mp ho
      exact ⟨hvars, rfl, fun _ => hblocks, fun hno => absurd ⟨hst, hd⟩ hno⟩
  · intro name rest move hb ht h
    have hscoped := wellScoped_of_stateAt hs
    obtain ⟨e, he⟩ := exists_assign_of_equals (fun d hd => (hscoped.valid d hd).1) hb ht h
    rw [he] at h ⊢
    obtain ⟨value, hstore⟩ := affects_of_execute h
    obtain ⟨older, v, newer, hsplit⟩ := Variables.toList_of_store hscoped.distinct hstore
    exact ⟨blocks_of_assign h, calls_attempt _ _, older, v, newer, value, hsplit⟩
  · intro move hno h
    have haffects := affects_of_execute h
    rcases keyword_of_success hno h with ⟨hnone, hblank⟩ | ⟨k, tokens, ht, hk⟩
    · rw [hblank] at haffects ⊢
      simp only [hnone]
      exact ⟨by simp, by simp, fun _ => haffects⟩
    · have hkey : line.keyword? = some k := by simp [Line.keyword?, ht]
      obtain ⟨hdecl, hdrop, hsame⟩ := haffects.of_keyword? (Statement.keyword?_of_ofKeyword? hk)
      refine ⟨?_, ?_, fun hother => hsame (hother k hkey).1 (hother k hkey).2⟩
      · intro k' ty hk' hty
        rw [hkey, Option.some.injEq] at hk'
        subst hk'
        obtain ⟨name, hfirst, hlist⟩ := hdecl ty hty
        rw [Statement.firstSymbol?_of_ofKeyword? hk] at hfirst
        exact ⟨name, by rw [ht, List.getElem?_cons_succ, ← List.head?_eq_getElem?, hfirst], hlist⟩
      · intro k' hk' hd
        rw [hkey, Option.some.injEq] at hk'
        subst hk'
        exact hdrop hd

/-- An assignment, and an `if` without an end. -/
def endlessIf : Listing :=
  ⟨#[⟨["integer", "x"]⟩, ⟨["x", "=", "7"]⟩, ⟨["if", "false"]⟩, ⟨["while", "x", "!=", "x"]⟩, ⟨["else"]⟩, ⟨["end"]⟩]⟩

theorem statements_framed_endlessIf :
    ∃ s s' line line', stateAt endlessIf none 1 = some s ∧ endlessIf.line? s.pc = some line ∧
      stateAt endlessIf none 2 = some s' ∧ endlessIf.line? s'.pc = some line' ∧
      (execute endlessIf s.pc s.env (.ofLine line)).env.blocks = s.env.blocks ∧
      Stranded endlessIf s' line' ∧
      (execute endlessIf s'.pc s'.env (.ofLine line')).env.vars = s'.env.vars ∧
      (execute endlessIf s'.pc s'.env (.ofLine line')).env.blocks.items = s'.pc :: s'.env.blocks.items := by
  have hassign := statements_framed (show stateAt endlessIf none 1 = some _ from rfl) rfl rfl
  have hif := statements_framed (show stateAt endlessIf none 2 = some _ from rfl) rfl rfl
  have hstranded : Stranded endlessIf ⟨2, 2, ⟨⟨[⟨"x", 0, .integer 7⟩]⟩, .empty⟩⟩ ⟨["if", "false"]⟩ :=
    ⟨.symbol "false", rfl, rfl, (Listing.elseOrCloser?_eq_none_iff (by decide)).mp (by decide)⟩
  obtain ⟨hvars, -, hblocks, -⟩ := hif.1 .unterminatedScope rfl
  exact ⟨_, _, _, _, rfl, rfl, rfl, rfl, (hassign.2.1 "x" ["7"] .next rfl rfl rfl).1, hstranded, hvars,
    hblocks ⟨hstranded, by decide⟩⟩

end Machine

end LineScript
