import LineScript.Proofs.Causes
import LineScript.Proofs.Flattening

/-!
# LineScript.Proofs.Simulation — results and the rounds that belong to them

The meaning of a construct says how it ends; the machine makes rounds.  This module says which rounds belong to which
result, and how they are put together.

* `Machine.Reaches`, `Machine.Ends`: rounds of the machine from one line to another, and to the end of the run.
* `Machine.Simulates`: the rounds that belong to a result.  A `break` or `continue` is on the line that its jump leads
  to, with the blocks closed that it leaves; and a meaning that is not known after `fuel` passes of a loop belongs to
  at least `fuel` rounds.
* `Machine.Settled`: the environments in which a construct can start.
* `Machine.simulates_simple`: the round of a simple line.
-/

namespace LineScript.Machine

variable {listing : Listing}

/-! ### Rounds -/

/-- `n` rounds lead from line `pc` with `env` to line `pc'` with `env'` and make the given calls. -/
def Reaches (listing : Listing) (n pc : Nat) (env : Environment) (calls : List Call) (pc' : Nat)
    (env' : Environment) : Prop :=
  ∀ fuel steps made, runFrom listing none (n + fuel) ⟨pc, steps, env⟩ made =
    runFrom listing none fuel ⟨pc', steps + n, env'⟩ (made ++ calls)

/-- A run from line `pc` with `env` ends with an event and the given calls. -/
def Ends (listing : Listing) (pc : Nat) (env : Environment) (event : Event) (calls : List Call) : Prop :=
  ∃ n, ∀ steps made, runFrom listing none n ⟨pc, steps, env⟩ made = some (event, made ++ calls)

section Rounds

variable {m n pc pc₁ pc₂ : Nat} {env env₁ env₂ : Environment} {calls calls' : List Call} {event : Event}

theorem append_append_calls (made : Array Call) : made ++ calls ++ calls' = made ++ (calls ++ calls') := by
  apply Array.ext'
  simp

theorem Reaches.refl : Reaches listing 0 pc env [] pc env := by
  intro fuel steps made
  simp

theorem Reaches.trans (h : Reaches listing m pc env calls pc₁ env₁)
    (h' : Reaches listing n pc₁ env₁ calls' pc₂ env₂) :
    Reaches listing (m + n) pc env (calls ++ calls') pc₂ env₂ := by
  intro fuel steps made
  rw [Nat.add_assoc, h, h', append_append_calls, Nat.add_assoc]

theorem Reaches.ends (h : Reaches listing m pc env calls pc₁ env₁) (h' : Ends listing pc₁ env₁ event calls') :
    Ends listing pc env event (calls ++ calls') := by
  obtain ⟨n, h'⟩ := h'
  refine ⟨m + n, ?_⟩
  intro steps made
  rw [h, h', append_append_calls]

variable {line : Line}

theorem reaches_of_execute (move : Move) {target : Nat} (hline : listing.line? pc = some line)
    (h : execute listing pc env (.ofLine line) = ⟨env₁, calls, .ok move⟩) (ht : move.target? pc = some target) :
    Reaches listing 1 pc env calls target env₁ := by
  intro fuel steps made
  have hturn : turn listing none ⟨pc, steps, env⟩ = .more ⟨target, steps + 1, env₁⟩ calls := by
    unfold turn
    simp only [hline, exhausted?, h]
    cases move with
    | next => cases ht; rfl
    | jump target' => cases ht; rfl
    | halt => cases ht
  rw [Nat.add_comm 1 fuel, runFrom, hturn]

theorem ends_of_halt (hline : listing.line? pc = some line)
    (h : execute listing pc env (.ofLine line) = ⟨env₁, calls, .ok .halt⟩) : Ends listing pc env .exited calls := by
  refine ⟨1, ?_⟩
  intro steps made
  have hturn : turn listing none ⟨pc, steps, env⟩ = .done .exited calls := by
    simp only [turn, hline, exhausted?, h]
  rw [runFrom, hturn]

theorem ends_of_error {cause : Cause} (hline : listing.line? pc = some line)
    (h : execute listing pc env (.ofLine line) = ⟨env, [], .error cause⟩) :
    Ends listing pc env (.failed ⟨cause, some pc⟩) [.error (Fault.report ⟨cause, some pc⟩)] := by
  refine ⟨1, ?_⟩
  intro steps made
  have hturn : turn listing none ⟨pc, steps, env⟩ = fail [] ⟨cause, some pc⟩ := by
    simp only [turn, hline, exhausted?, h, Fault.onLine_of_cause]
  rw [runFrom, hturn]
  rfl

theorem ends_of_size_le (hpc : listing.size ≤ pc) (hd : env.depth = 0) : Ends listing pc env .finished [] := by
  refine ⟨1, ?_⟩
  intro steps made
  have hturn : turn listing none ⟨pc, steps, env⟩ = .done .finished [] := by
    simp only [turn, Listing.line?_eq_none_iff.mpr hpc, hd, if_true]
  rw [runFrom, hturn]

end Rounds

/-! ### Results and the rounds that belong to them -/

/-- The rounds from line `pc` with `env` that belong to a result, if it is to be known after `fuel` passes of every
loop.  A normal end is on line `stop` with the given blocks open. -/
inductive Simulates (listing : Listing) (fuel pc : Nat) (env : Environment) (blocks : Stack Nat) (stop : Nat) :
    Option Result → Prop
  | running {n pc' : Nat} {env' : Environment} {calls : List Call} (hn : fuel ≤ n)
      (h : Reaches listing n pc env calls pc' env') : Simulates listing fuel pc env blocks stop none
  | done {n : Nat} {vars : Variables} {calls : List Call} (h : Reaches listing n pc env calls stop ⟨vars, blocks⟩) :
      Simulates listing fuel pc env blocks stop (some ⟨.done, vars, calls⟩)
  | leave {n level i j : Nat} {closing : Bool} {vars : Variables} {env' : Environment} {calls : List Call}
      (hi : blocks.peek? level = some i) (hj : listing.closer? i = some j)
      (hc : Environment.closeBlocks (if closing then level + 1 else level) ⟨vars, blocks⟩ = .ok env')
      (h : Reaches listing n pc env calls (if closing then j + 1 else j) env') :
      Simulates listing fuel pc env blocks stop (some ⟨.leave (level + 1) closing, vars, calls⟩)
  | exit {vars : Variables} {calls : List Call} (h : Ends listing pc env .exited calls) :
      Simulates listing fuel pc env blocks stop (some ⟨.exit, vars, calls⟩)
  | fail {fault : Fault} {vars : Variables} {calls : List Call}
      (h : Ends listing pc env (.failed fault) (calls ++ [.error fault.report])) :
      Simulates listing fuel pc env blocks stop (some ⟨.fail fault, vars, calls⟩)

section Results

variable {fuel n pc pc' stop : Nat} {env env' : Environment} {blocks : Stack Nat} {calls : List Call}
  {o : Option Result}

theorem Simulates.mono {k : Nat} (hk : k ≤ fuel) (h : Simulates listing fuel pc env blocks stop o) :
    Simulates listing k pc env blocks stop o := by
  cases h with
  | running hn h => exact .running (Nat.le_trans hk hn) h
  | done h => exact .done h
  | leave hi hj hc h => exact .leave hi hj hc h
  | exit h => exact .exit h
  | fail h => exact .fail h

/-- Rounds before the others put their calls in front, and count. -/
theorem Simulates.behind (h : Reaches listing n pc env calls pc' env')
    (hs : Simulates listing fuel pc' env' blocks stop o) :
    Simulates listing (n + fuel) pc env blocks stop (o.map (.behind calls)) := by
  cases hs with
  | running hn h' => exact .running (by omega) (h.trans h')
  | done h' => exact .done (h.trans h')
  | leave hi hj hc h' => exact .leave hi hj hc (h.trans h')
  | exit h' => exact .exit (h.ends h')
  | @fail fault vars calls' h' =>
    refine .fail ?_
    show Ends listing pc env (.failed fault) (calls ++ calls' ++ _)
    rw [List.append_assoc]
    exact h.ends h'

theorem Simulates.after (h : Reaches listing n pc env [] pc' env')
    (hs : Simulates listing fuel pc' env' blocks stop o) : Simulates listing fuel pc env blocks stop o := by
  have hb : o.map (.behind []) = o := by cases o <;> rfl
  rw [← hb]
  exact (Simulates.behind h hs).mono (by omega)

/-- One after the other. -/
theorem Simulates.andThen {mid : Nat} {next : Variables → Option Result}
    (h : Simulates listing fuel pc env blocks mid o)
    (hnext : ∀ r, o = some r → Simulates listing fuel mid ⟨r.vars, blocks⟩ blocks stop (next r.vars)) :
    Simulates listing fuel pc env blocks stop (o.bind fun r => r.andThen next) := by
  cases h with
  | running hn h => exact .running hn h
  | done h => exact (Simulates.behind h (hnext _ rfl)).mono (by omega)
  | leave hi hj hc h => exact .leave hi hj hc h
  | exit h => exact .exit h
  | fail h => exact .fail h

/-- A normal end may lead on to another line. -/
theorem Simulates.lead {mid : Nat} (h : Simulates listing fuel pc env blocks mid o)
    (hnext : ∀ vars, Reaches listing 1 mid ⟨vars, blocks⟩ [] stop ⟨vars, blocks⟩) :
    Simulates listing fuel pc env blocks stop o := by
  cases h with
  | running hn h => exact .running hn h
  | @done n vars calls h =>
    have := h.trans (hnext vars)
    rw [List.append_nil] at this
    exact .done this
  | leave hi hj hc h => exact .leave hi hj hc h
  | exit h => exact .exit h
  | fail h => exact .fail h

/-- Behind the last line, with no block left to go out of, a result is the end of the run. -/
theorem Simulates.ends {r : Result} (h : Simulates listing fuel pc env .empty listing.size (some r)) :
    ∃ event calls, r.ending? = some (event, calls) ∧ Ends listing pc env event calls := by
  cases h with
  | @done n vars calls h =>
    have := h.ends (ends_of_size_le (Nat.le_refl _) rfl)
    rw [List.append_nil] at this
    exact ⟨_, _, rfl, this⟩
  | leave hi => simp [Stack.peek?] at hi
  | exit h => exact ⟨_, _, rfl, h⟩
  | fail h => exact ⟨_, _, rfl, h⟩

end Results

/-! ### Simple lines -/

/-- Where a construct can start: every open block has its end, and no variable is from a deeper block. -/
structure Settled (listing : Listing) (env : Environment) : Prop where
  closers : ∀ i ∈ env.blocks.items, ∃ j, listing.closer? i = some j
  bounded : ∀ d ∈ env.vars.declarations, d.scope ≤ env.depth

section Lines

variable {fuel pc i j : Nat} {env env' : Environment} {line : Line}

theorem Settled.openBlock (h : Settled listing env) (ho : env.openBlock pc = .ok env')
    (hj : listing.closer? pc = some j) : Settled listing env' := by
  obtain ⟨-, hv, hb⟩ := Environment.openBlock_eq_ok_iff.mp ho
  refine ⟨?_, ?_⟩
  · intro i hi
    rw [hb] at hi
    rcases List.mem_cons.mp hi with rfl | hi
    · exact ⟨j, hj⟩
    · exact h.closers i hi
  · intro d hd
    rw [hv] at hd
    rw [Environment.depth_of_openBlock ho]
    exact Nat.le_succ_of_le (h.bounded d hd)

theorem Settled.of_grows {vars : Variables} (h : Settled listing env) (hg : env.vars.Grows env.depth vars) :
    Settled listing ⟨vars, env.blocks⟩ :=
  ⟨h.closers, hg.bounded h.bounded⟩

/-- A line that goes on to the next one or fails. -/
theorem simulates_of_next (x : Except Cause (Variables × List Call)) (hline : listing.line? pc = some line)
    (he : execute listing pc env (.ofLine line) =
      match x with
      | .ok (vars, calls) => ⟨⟨vars, env.blocks⟩, calls, .ok .next⟩
      | .error cause => ⟨env, [], .error cause⟩)
    (hp : (Statement.ofLine line).perform env.depth env.vars = x.map fun p => ⟨.done, p.1, p.2⟩) :
    Simulates listing fuel pc env env.blocks (pc + 1) (some (evalSimple env.depth pc env.vars line)) := by
  rw [evalSimple, hp]
  cases x with
  | error cause => exact .fail (ends_of_error hline he)
  | ok p => exact .done (reaches_of_execute _ hline he rfl)

theorem leaveNamed_eq (closing : Bool) (symbol : Option String) :
    leaveNamed listing env closing symbol =
      match env.vars.levelsOf symbol with
      | .ok levels => leaveBlocks listing env levels closing
      | .error cause => ⟨env, [], .error cause⟩ := by
  cases symbol <;> rfl

theorem one_le_of_levelsOf {vars : Variables} {symbol : Option String} {levels : Nat}
    (h : vars.levelsOf symbol = .ok levels) : 1 ≤ levels := by
  cases symbol with
  | none => cases h; exact Nat.le_refl 1
  | some symbol => exact vars.one_le_of_levels h

/-- A `break` or `continue`. -/
theorem simulates_leaving {closing : Bool} {symbol : Option String} (hs : Settled listing env)
    (hline : listing.line? pc = some line)
    (hp : (Statement.ofLine line).perform env.depth env.vars = leaving env.depth env.vars closing symbol)
    (he : execute listing pc env (.ofLine line) = leaveNamed listing env closing symbol) :
    Simulates listing fuel pc env env.blocks (pc + 1) (some (evalSimple env.depth pc env.vars line)) := by
  rw [leaveNamed_eq] at he
  cases hl : env.vars.levelsOf symbol with
  | error cause =>
    rw [hl] at he
    refine simulates_of_next (.error cause) hline he ?_
    rw [hp, leaving, hl]
    rfl
  | ok levels =>
    rw [hl] at he
    simp only at he
    have hlev : leaving env.depth env.vars closing symbol =
        if levels ≤ env.depth then .ok ⟨.leave levels closing, env.vars, []⟩
        else .error .unexpectedEndOfScope := by
      rw [leaving, hl]
      rfl
    rw [hlev] at hp
    by_cases hd : levels ≤ env.depth
    · rw [if_pos hd] at hp
      have hone := one_le_of_levelsOf hl
      obtain ⟨level, rfl⟩ : ∃ level, levels = level + 1 := ⟨levels - 1, by omega⟩
      obtain ⟨i, j, env', hi, hj, hc, hleave⟩ := exists_leaveBlocks closing hd
        fun i hi => hs.closers i (List.mem_of_getElem? hi)
      rw [hleave] at he
      rw [evalSimple, hp]
      exact .leave hi hj hc (reaches_of_execute _ hline he rfl)
    · rw [if_neg hd] at hp
      rw [leaveBlocks_of_depth_lt (by omega)] at he
      exact simulates_of_next (.error .unexpectedEndOfScope) hline he hp

theorem simulates_assign {target : String} {e : Expression} (hline : listing.line? pc = some line)
    (hst : Statement.ofLine line = .assign target e) :
    Simulates listing fuel pc env env.blocks (pc + 1) (some (evalSimple env.depth pc env.vars line)) := by
  refine simulates_of_next (do
    let v ← env.vars.fetch target
    let value ← env.vars.assigned v.ty e
    return (← env.vars.store target value, [])) hline ?_ ?_
  all_goals
    simp only [hst, Statement.perform, execute, assign]
    cases env.vars.fetch target with
    | error cause => rfl
    | ok v =>
      simp only [ok_bind]
      cases env.vars.assigned v.ty e with
      | error cause => rfl
      | ok value =>
        simp only [ok_bind]
        cases env.vars.store target value <;> rfl

/-- A simple line. -/
theorem simulates_simple (hs : Settled listing env) (hline : listing.line? pc = some line)
    (hsimple : line.isSimple = true) :
    Simulates listing fuel pc env env.blocks (pc + 1) (some (evalSimple env.depth pc env.vars line)) := by
  have hrole := Line.role_of_isSimple hsimple
  have hkey : ∀ k, (Statement.ofLine line).keyword? = some k →
      k.isOpener = false ∧ k.isCloser = false ∧ k ≠ .else_ := by
    intro k hk
    rw [Line.role, Statement.keyword?_of_ofLine hk] at hrole
    revert hrole
    cases k <;> decide
  cases hst : Statement.ofLine line with
  | blank => exact simulates_of_next (.ok (env.vars, [])) hline (by rw [hst]; rfl) (by rw [hst]; rfl)
  | exit =>
    rw [evalSimple, hst]
    exact .exit (ends_of_halt hline (by rw [hst, execute]))
  | declare ty name =>
    refine simulates_of_next ((env.vars.declare name ty env.depth).map (·, [])) hline ?_ ?_
    · rw [hst, execute, Environment.declare]
      cases env.vars.declare name ty env.depth <;> rfl
    · rw [hst, Statement.perform]
      cases env.vars.declare name ty env.depth <;> rfl
  | untyped => exact absurd hst (Statement.ofLine_ne_untyped line)
  | print name =>
    refine simulates_of_next ((env.vars.fetch name).map fun v => (env.vars, [.print v.value.text, .newline]))
      hline ?_ ?_
    · rw [hst, execute, print]
      cases env.vars.fetch name <;> rfl
    · rw [hst, Statement.perform]
      cases env.vars.fetch name <;> rfl
  | assign target e => exact simulates_assign hline hst
  | break_ levels => exact simulates_leaving hs hline (by rw [hst]; rfl) (by rw [hst]; rfl)
  | continue_ levels => exact simulates_leaving hs hline (by rw [hst]; rfl) (by rw [hst]; rfl)
  | unrecognized text =>
    exact simulates_of_next (.error (.unrecognizedCommand text)) hline (by rw [hst]; rfl) (by rw [hst]; rfl)
  | push => exact absurd (hkey .push (by rw [hst]; rfl)).1 (by decide)
  | if_ e => exact absurd (hkey .if_ (by rw [hst]; rfl)).1 (by decide)
  | while_ e => exact absurd (hkey .while_ (by rw [hst]; rfl)).1 (by decide)
  | pop => exact absurd (hkey .pop (by rw [hst]; rfl)).2.1 (by decide)
  | end_ => exact absurd (hkey .end_ (by rw [hst]; rfl)).2.1 (by decide)
  | else_ => exact absurd rfl (hkey .else_ (by rw [hst]; rfl)).2.2

end Lines

end LineScript.Machine
