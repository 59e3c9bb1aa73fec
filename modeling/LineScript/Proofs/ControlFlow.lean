import LineScript.Proofs.Rounds
import LineScript.Proofs.Simulation

/-!
# LineScript.Proofs.ControlFlow — the machine follows the structure

On a flattened program the machine, which only knows lines, jumps and a stack of open blocks, does what the program
means.

* `Machine.Simulates.outside`: a result inside a block, seen from outside.
* `Machine.simulates_inBlock`, `Machine.simulates_choose`, `Machine.simulates_passes`: blocks, branches and loops.
* `Machine.simulates_evalAll`: every list of constructs.
* `Machine.structured_control_flow`: a run of a flattened program ends as the program does, and with the same calls.
-/

namespace LineScript.Machine

variable {listing : Listing}

/-! ### Blocks -/

section Blocks

variable {fuel pc i j : Nat} {env env' : Environment}

/-- Closing a block leaves the variables that were there when it was opened. -/
theorem closeBlock_of_grows {vars : Variables} (hs : Settled listing env) (ho : env.openBlock pc = .ok env')
    (hg : env.vars.Grows (env.depth + 1) vars) :
    Environment.closeBlock ⟨vars, env'.blocks⟩ = .ok (pc, ⟨vars.keepOldest env.vars.size, env.blocks⟩) := by
  obtain ⟨-, -, hb⟩ := Environment.openBlock_eq_ok_iff.mp ho
  have hd : Environment.depth ⟨vars, env'.blocks⟩ = env.depth + 1 := by
    rw [← Environment.depth_of_openBlock ho]
    rfl
  refine Environment.closeBlock_eq_ok_iff.mpr ⟨hb, ?_⟩
  rw [hd, hg.dispose_eq hs.bounded]

theorem closeBlocks_succ {n : Nat} (h : env.closeBlock = .ok (i, env')) :
    env.closeBlocks (n + 1) = env'.closeBlocks n := by
  rw [Environment.closeBlocks, h]

/-- A result inside a block, seen from outside: the machine is on the line that closes the block, or it has left the
block already. -/
theorem Simulates.outside {pc₀ : Nat} {env₀ : Environment} {r : Result} (hs : Settled listing env)
    (hj : listing.closer? pc = some j) (ho : env.openBlock pc = .ok env')
    (hg : env.vars.Grows (env.depth + 1) r.vars)
    (h : Simulates listing fuel pc₀ env₀ env'.blocks j (some r)) :
    (r.signal.endsPass = true ∧ r.signal.outward = .done ∧
      ∃ n, Reaches listing n pc₀ env₀ r.calls j ⟨r.vars, env'.blocks⟩) ∨
    (r.signal.endsPass = false ∧
      Simulates listing fuel pc₀ env₀ env.blocks (j + 1) (some (r.close env.vars.size))) := by
  have hclose := closeBlock_of_grows hs ho hg
  have hb : env'.blocks.items = pc :: env.blocks.items := (Environment.openBlock_eq_ok_iff.mp ho).2.2
  cases h with
  | done h => exact Or.inl ⟨rfl, rfl, _, h⟩
  | exit h => exact Or.inr ⟨rfl, .exit h⟩
  | fail h => exact Or.inr ⟨rfl, .fail h⟩
  | @leave n level i j' closing vars env'' calls hi hj' hc h =>
    rw [Stack.peek?, hb] at hi
    cases level with
    | zero =>
      -- the block is the last one to leave: `continue` goes onto its end, `break` behind it
      rw [List.getElem?_cons_zero, Option.some.injEq] at hi
      subst hi
      rw [hj, Option.some.injEq] at hj'
      subst hj'
      cases closing with
      | false =>
        cases hc
        exact Or.inl ⟨rfl, rfl, _, h⟩
      | true =>
        refine Or.inr ⟨rfl, ?_⟩
        rw [if_pos rfl, closeBlocks_succ hclose] at hc
        cases hc
        exact .done h
    | succ level =>
      rw [List.getElem?_cons_succ] at hi
      have hlevels : (if closing then level + 1 + 1 else level + 1) = (if closing then level + 1 else level) + 1 := by
        split <;> rfl
      rw [hlevels, closeBlocks_succ hclose] at hc
      have hpass : (Signal.leave (level + 1 + 1) closing).endsPass = false := by
        cases closing <;> rfl
      exact Or.inr ⟨hpass, .leave hi hj' hc h⟩

/-- A line that opens a block fails if too many are open. -/
theorem simulates_entering {stop : Nat} {o : Option Result}
    (hfull : ∀ cause, env.openBlock pc = .error cause →
      Ends listing pc env (.failed ⟨cause, some pc⟩) [.error (Fault.report ⟨cause, some pc⟩)])
    (hopen : ∀ env', env.openBlock pc = .ok env' → Simulates listing fuel pc env env.blocks stop o) :
    Simulates listing fuel pc env env.blocks stop (entering env.depth pc env.vars o) := by
  unfold entering
  cases ho : env.openBlock pc with
  | error cause =>
    obtain ⟨hlim, rfl⟩ := Environment.openBlock_eq_error ho
    rw [if_pos hlim]
    exact .fail (hfull _ ho)
  | ok env' =>
    have hlim := (Environment.openBlock_eq_ok_iff.mp ho).1
    rw [if_neg (by omega)]
    exact hopen env' ho

/-- A block that is opened on line `pc`, goes on at line `start` and ends on line `j`. -/
theorem simulates_inBlock {inside : Option Result} (start : Nat) (hs : Settled listing env)
    (hj : listing.closer? pc = some j)
    (hfull : ∀ cause, env.openBlock pc = .error cause →
      Ends listing pc env (.failed ⟨cause, some pc⟩) [.error (Fault.report ⟨cause, some pc⟩)])
    (hopen : ∀ env', env.openBlock pc = .ok env' → Reaches listing 1 pc env [] start env')
    (hinside : ∀ env', env.openBlock pc = .ok env' → Simulates listing fuel start env' env'.blocks j inside)
    (hclose : ∀ env₁ env₂, env₁.closeBlock = .ok (pc, env₂) → Reaches listing 1 j env₁ [] (j + 1) env₂)
    (hg : ∀ r, inside = some r → env.vars.Grows (env.depth + 1) r.vars) :
    Simulates listing fuel pc env env.blocks (j + 1) (inBlock env.depth pc env.vars inside) := by
  refine simulates_entering hfull ?_
  intro env' ho
  refine Simulates.after (hopen env' ho) ?_
  have hsim := hinside env' ho
  cases inside with
  | none =>
    cases hsim with
    | running hn h => exact .running hn h
  | some r =>
    have hgr := hg r rfl
    rcases hsim.outside hs hj ho hgr with ⟨-, hout, n, h⟩ | ⟨-, h⟩
    · have h' := h.trans (hclose _ _ (closeBlock_of_grows hs ho hgr))
      rw [List.append_nil] at h'
      rw [Option.map_some, Result.close, hout]
      exact .done h'
    · exact h

/-! ### The lines around blocks -/

theorem reaches_pop (hline : listing.line? j = some (Keyword.pop.line [])) (h : env.closeBlock = .ok (i, env')) :
    Reaches listing 1 j env [] (j + 1) env' := by
  refine reaches_of_execute .next hline ?_ rfl
  rw [Statement.ofLine_line rfl]
  simp [execute, h]

theorem reaches_endIf (hline : listing.line? j = some (Keyword.end_.line []))
    (hif : listing.keyword? i = some .if_) (h : env.closeBlock = .ok (i, env')) :
    Reaches listing 1 j env [] (j + 1) env' := by
  refine reaches_of_execute .next hline ?_ rfl
  rw [Statement.ofLine_line rfl]
  exact endBlock_of_if hif h

theorem reaches_endWhile (hline : listing.line? j = some (Keyword.end_.line []))
    (hw : listing.keyword? i = some .while_) (h : env.closeBlock = .ok (i, env')) :
    Reaches listing 1 j env [] i env' := by
  refine reaches_of_execute (.jump i) hline ?_ rfl
  rw [Statement.ofLine_line rfl]
  exact endBlock_of_while hw h

theorem reaches_else {k : Nat} (hline : listing.line? k = some (Keyword.else_.line []))
    (hi : env.opener? 0 = some i) (hif : listing.keyword? i = some .if_) (hj : listing.closer? i = some j) :
    Reaches listing 1 k env [] j env := by
  refine reaches_of_execute (.jump j) hline ?_ rfl
  rw [Statement.ofLine_line rfl]
  exact leaveElse_of_if hi hif hj

theorem ofLine_if (e : Expression) : Statement.ofLine (Keyword.if_.line e.tokens) = .if_ e :=
  Statement.ofLine_line (by simp [Statement.ofKeyword?])

theorem ofLine_while (e : Expression) : Statement.ofLine (Keyword.while_.line e.tokens) = .while_ e :=
  Statement.ofLine_line (by simp [Statement.ofKeyword?])

/-- An `if` whose block ends on line `j` and whose second branch starts on line `start`. -/
theorem simulates_choose {test : Expression} {yes no : Option Result} {target : Nat} (start : Nat)
    (hs : Settled listing env)
    (hline : listing.line? pc = some (Keyword.if_.line test.tokens)) (hj : listing.closer? pc = some j)
    (hend : listing.line? j = some (Keyword.end_.line []))
    (ht : listing.elseOrCloser? pc = some target)
    (hstart : start = if listing.keyword? target = some .else_ then target + 1 else target)
    (hyes : ∀ env', env.openBlock pc = .ok env' → Simulates listing fuel (pc + 1) env' env'.blocks j yes)
    (hno : ∀ env', env.openBlock pc = .ok env' → Simulates listing fuel start env' env'.blocks j no)
    (hgy : ∀ r, yes = some r → env.vars.Grows (env.depth + 1) r.vars)
    (hgn : ∀ r, no = some r → env.vars.Grows (env.depth + 1) r.vars) :
    Simulates listing fuel pc env env.blocks (j + 1) (choose env.depth pc env.vars test yes no) := by
  have hif : listing.keyword? pc = some .if_ := by simp [Listing.keyword?, hline]
  have hclose : ∀ env₁ env₂, Environment.closeBlock env₁ = .ok (pc, env₂) →
      Reaches listing 1 j env₁ [] (j + 1) env₂ := fun _ _ h => reaches_endIf hend hif h
  unfold choose
  cases hc : env.vars.condition test with
  | error cause =>
    refine .fail (ends_of_error hline ?_)
    rw [ofLine_if, execute, enterIf, hc]
  | ok taken =>
    have hfull : ∀ cause, env.openBlock pc = .error cause →
        Ends listing pc env (.failed ⟨cause, some pc⟩) [.error (Fault.report ⟨cause, some pc⟩)] := by
      intro cause ho
      refine ends_of_error hline ?_
      rw [ofLine_if, execute, enterIf, hc, ho]
    cases taken with
    | true =>
      refine simulates_inBlock (pc + 1) hs hj hfull ?_ hyes hclose hgy
      intro env' ho
      refine reaches_of_execute .next hline ?_ rfl
      rw [ofLine_if, execute, enterIf, hc, ho]
      rfl
    | false =>
      refine simulates_inBlock start hs hj hfull ?_ hno hclose hgn
      intro env' ho
      refine reaches_of_execute (.jump start) hline ?_ rfl
      rw [ofLine_if, execute, enterIf, hc, ho, Listing.elseOrCloser, ht, hstart]
      by_cases he : listing.keyword? target = some .else_
      · simp [he]
      · simp [he]

/-- One pass of a `while` whose block ends on line `j`: back to the condition when the pass is over, and otherwise out
of the loop. -/
theorem simulates_pass {o : Option Result} {next : Variables → Option Result} {k : Nat} (hk : k < fuel)
    (hs : Settled listing env) (hw : listing.keyword? pc = some .while_) (hj : listing.closer? pc = some j)
    (hend : listing.line? j = some (Keyword.end_.line [])) (ho : env.openBlock pc = .ok env')
    (hopen : Reaches listing 1 pc env [] (pc + 1) env')
    (hbody : Simulates listing fuel (pc + 1) env' env'.blocks j o)
    (hg : ∀ r, o = some r → env.vars.Grows (env.depth + 1) r.vars)
    (hnext : ∀ vars, vars.declarations = env.vars.declarations →
      Simulates listing k pc ⟨vars, env.blocks⟩ env.blocks (j + 1) (next vars)) :
    Simulates listing (k + 1) pc env env.blocks (j + 1)
      (o.bind fun r =>
        if r.signal.endsPass then (next (r.vars.keepOldest env.vars.size)).map (.behind r.calls)
        else some (r.close env.vars.size)) := by
  cases o with
  | none =>
    cases hbody with
    | running hn h => exact .running (by omega) (hopen.trans h)
  | some r =>
    have hgr := hg r rfl
    rcases hbody.outside hs hj ho hgr with ⟨hpass, -, n, h⟩ | ⟨hpass, h⟩
    · have hback := reaches_endWhile hend hw (closeBlock_of_grows hs ho hgr)
      have hround := (hopen.trans h).trans hback
      rw [List.nil_append, List.append_nil] at hround
      have hrest := hnext _ hgr.declarations_keepOldest
      simp only [Option.bind_some, hpass, if_true]
      exact (Simulates.behind hround hrest).mono (by omega)
    · simp only [Option.bind_some, hpass, Bool.false_eq_true, if_false]
      exact (Simulates.after hopen h).mono hk

/-- A `while` whose block ends on line `j`, with at most `k` passes. -/
theorem simulates_passes {test : Expression} {body : Variables → Option Result} {k : Nat} (hk : k ≤ fuel)
    (hs : Settled listing env) (hline : listing.line? pc = some (Keyword.while_.line test.tokens))
    (hj : listing.closer? pc = some j) (hend : listing.line? j = some (Keyword.end_.line []))
    (hbody : ∀ env', Settled listing env' → env'.depth = env.depth + 1 →
      Simulates listing fuel (pc + 1) env' env'.blocks j (body env'.vars))
    (hg : ∀ vars r, body vars = some r → vars.Grows (env.depth + 1) r.vars) :
    Simulates listing k pc env env.blocks (j + 1) (passes env.depth pc test body k env.vars) := by
  have hw : listing.keyword? pc = some .while_ := by simp [Listing.keyword?, hline]
  induction k generalizing env with
  | zero => exact .running (Nat.le_refl 0) .refl
  | succ k ih =>
    rw [passes]
    cases hc : env.vars.condition test with
    | error cause =>
      refine .fail (ends_of_error hline ?_)
      rw [ofLine_while, execute, enterWhile, hc]
      rfl
    | ok taken =>
      cases taken with
      | false =>
        refine .done (reaches_of_execute (.jump (j + 1)) hline ?_ rfl)
        rw [ofLine_while, execute, enterWhile, hc, Listing.closer, hj]
        rfl
      | true =>
        refine simulates_entering ?_ ?_
        · intro cause ho
          refine ends_of_error hline ?_
          rw [ofLine_while, execute, enterWhile, hc, ho]
          rfl
        · intro env' ho
          have hopen : Reaches listing 1 pc env [] (pc + 1) env' := by
            refine reaches_of_execute .next hline ?_ rfl
            rw [ofLine_while, execute, enterWhile, hc, ho]
            rfl
          have hin := hbody env' (hs.openBlock ho hj) (Environment.depth_of_openBlock ho)
          rw [Environment.vars_of_openBlock ho] at hin
          refine simulates_pass hk hs hw hj hend ho hopen hin (hg env.vars) ?_
          -- the next pass starts with other values in the same variables
          intro vars hvars
          exact ih (by omega) (hs.of_grows (.of_declarations_eq hvars)) hbody hg

end Blocks

/-! ### Constructs -/

mutual

theorem simulates_eval {fuel : Nat} (c : Construct) {pc : Nat} {env : Environment} (hs : Settled listing env)
    (h : listing.Holds pc c.lines) :
    Simulates listing fuel pc env env.blocks (pc + c.lines.length) (c.eval fuel env.depth pc env.vars) := by
  cases c with
  | simple line hl =>
    rw [Construct.lines] at h ⊢
    rw [Construct.eval]
    exact simulates_simple hs h.1 hl
  | push body =>
    rw [Construct.lines] at h ⊢
    rw [Construct.eval, Listing.add_length_block]
    obtain ⟨hline, hin, hend⟩ := h.parts
    have hj := Listing.closer?_of_holds h rfl rfl (skips_linesOf body (Nat.le_refl 1) hin)
    refine simulates_inBlock (pc + 1) hs hj ?_ ?_ ?_ (fun _ _ hc => reaches_pop hend hc)
      (fun r hr => grows_of_evalAll body hr)
    · intro cause ho
      refine ends_of_error hline ?_
      rw [Statement.ofLine_line rfl, execute, ho]
      rfl
    · intro env' ho
      refine reaches_of_execute .next hline ?_ rfl
      rw [Statement.ofLine_line rfl, execute, ho]
      rfl
    · intro env' ho
      rw [← Environment.depth_of_openBlock ho, ← Environment.vars_of_openBlock ho]
      exact simulates_evalAll body (hs.openBlock ho hj) hin
  | if_ test yes =>
    rw [Construct.lines] at h ⊢
    rw [Construct.eval, Listing.add_length_block]
    obtain ⟨hline, hin, hend⟩ := h.parts
    have hj := Listing.closer?_of_holds h rfl rfl (skips_linesOf yes (Nat.le_refl 1) hin)
    have ht := Listing.elseOrCloser?_of_holds h rfl rfl (skips_linesOf yes (Nat.le_refl 1) hin)
    refine simulates_choose (pc + 1 + (linesOf yes).length) hs hline hj hend ht ?_ ?_ ?_
      (fun r hr => grows_of_evalAll yes hr) ?_
    · simp [Listing.keyword?, hend]
    · intro env' ho
      rw [← Environment.depth_of_openBlock ho, ← Environment.vars_of_openBlock ho]
      exact simulates_evalAll yes (hs.openBlock ho hj) hin
    · intro env' ho
      rw [← Environment.vars_of_openBlock ho]
      exact .done .refl
    · intro r hr
      cases hr
      exact .of_declarations_eq rfl
  | ifElse test yes no =>
    rw [Construct.lines] at h ⊢
    rw [Construct.eval, Listing.add_length_block]
    obtain ⟨hline, hin, hend⟩ := h.parts
    obtain ⟨hy, helse, hn⟩ := Listing.holds_append.mp hin
    have hj := Listing.closer?_of_holds h rfl rfl
      ((skips_linesOf yes (Nat.le_refl 1) hy).branches helse rfl (Or.inl rfl) (skips_linesOf no (Nat.le_refl 1) hn))
    have ht := Listing.elseOrCloser?_of_else hline helse rfl rfl (skips_linesOf yes (Nat.le_refl 1) hy)
    refine simulates_choose (pc + 1 + (linesOf yes).length + 1) hs hline hj hend ht ?_ ?_ ?_
      (fun r hr => grows_of_evalAll yes hr) (fun r hr => grows_of_evalAll no hr)
    · simp [Listing.keyword?, helse]
    · intro env' ho
      rw [← Environment.depth_of_openBlock ho, ← Environment.vars_of_openBlock ho]
      refine (simulates_evalAll yes (hs.openBlock ho hj) hy).lead ?_
      intro vars
      have hi : env'.opener? 0 = some pc := Environment.opener?_of_openBlock ho
      exact reaches_else helse hi (by simp [Listing.keyword?, hline]) hj
    · intro env' ho
      have hstop : pc + 1 + (linesOf yes ++ Keyword.else_.line [] :: linesOf no).length =
          pc + 1 + (linesOf yes).length + 1 + (linesOf no).length := by
        simp only [List.length_append, List.length_cons]
        omega
      rw [← Environment.depth_of_openBlock ho, ← Environment.vars_of_openBlock ho, hstop]
      exact simulates_evalAll no (hs.openBlock ho hj) hn
  | while_ test body =>
    rw [Construct.lines] at h ⊢
    rw [Construct.eval, Listing.add_length_block]
    obtain ⟨hline, hin, hend⟩ := h.parts
    have hj := Listing.closer?_of_holds h rfl rfl (skips_linesOf body (Nat.le_refl 1) hin)
    refine simulates_passes (Nat.le_refl fuel) hs hline hj hend ?_ (fun vars r hr => grows_of_evalAll body hr)
    intro env' hs' hd
    rw [← hd]
    exact simulates_evalAll body hs' hin

/-- **Constructs.**  From a settled environment the machine does what constructs mean. -/
theorem simulates_evalAll {fuel : Nat} (cs : List Construct) {pc : Nat} {env : Environment}
    (hs : Settled listing env) (h : listing.Holds pc (linesOf cs)) :
    Simulates listing fuel pc env env.blocks (pc + (linesOf cs).length)
      (evalAll fuel env.depth pc env.vars cs) := by
  cases cs with
  | nil =>
    rw [evalAll]
    exact .done .refl
  | cons c rest =>
    rw [linesOf] at h ⊢
    rw [evalAll]
    obtain ⟨hc, hrest⟩ := Listing.holds_append.mp h
    refine (simulates_eval c hs hc).andThen ?_
    intro r hr
    rw [List.length_append, ← Nat.add_assoc]
    exact simulates_evalAll rest (hs.of_grows (c.grows_of_eval hr)) hrest

end

/-! ### Programs -/

section Programs

variable {limit : Option Nat} {fuel : Nat} {s : State} {made : Array Call} {r : Event × Array Call}

/-- A run under a limit is a run without one, or it ends because of the limit. -/
theorem runFrom_limit (h : runFrom listing limit fuel s made = some r) :
    runFrom listing none fuel s made = some r ∨
    ∃ n line, limit = some n ∧ r.1 = .failed ⟨.stepLimitExceeded n.repr, some line⟩ := by
  induction fuel generalizing s made with
  | zero => cases h
  | succ fuel ih =>
    rw [runFrom] at h ⊢
    rcases turn_limit listing limit s with ht | ⟨n, hlim, -, ht⟩
    · rw [ht] at h
      cases hturn : turn listing none s with
      | more s' calls =>
        rw [hturn] at h
        exact ih h
      | done event calls =>
        rw [hturn] at h
        exact Or.inl h
    · rw [ht] at h
      cases h
      exact Or.inr ⟨n, s.pc, hlim, rfl⟩

/-- A limit that is high enough changes nothing. -/
theorem runFrom_of_limit_le {n : Nat} (hn : s.steps + fuel ≤ n) (h : runFrom listing none fuel s made = some r) :
    runFrom listing (some n) fuel s made = some r := by
  induction fuel generalizing s made with
  | zero => cases h
  | succ fuel ih =>
    have ht : turn listing (some n) s = turn listing none s := by
      rcases turn_limit listing (some n) s with ht | ⟨m, hm, hle, -⟩
      · exact ht
      · cases hm
        omega
    rw [runFrom] at h ⊢
    rw [ht]
    cases hturn : turn listing none s with
    | done event calls =>
      rw [hturn] at h
      exact h
    | more s' calls =>
      rw [hturn] at h
      obtain ⟨-, -, -, -, -, -, -, hsteps, -⟩ := turn_eq_more hturn
      exact ih (by omega) h

/-- The whole of a flattened program. -/
theorem simulates_flatten (fuel : Nat) (program : List Construct) :
    Simulates (flatten program) fuel 0 .empty .empty (flatten program).size (evalAll fuel 0 0 {} program) := by
  have hs : Settled (flatten program) .empty :=
    ⟨by simp [Environment.empty], by simp [Environment.empty, Variables.declarations, Variables.toList]⟩
  have h : Simulates (flatten program) fuel 0 .empty .empty (0 + (linesOf program).length)
      (evalAll fuel 0 0 {} program) := simulates_evalAll program hs (Listing.holds_toArray (linesOf program))
  rw [Nat.zero_add] at h
  exact h

variable {program : List Construct} {event : Event} {calls : List Call}

theorem run_of_evaluate (h : evaluate fuel program = some (event, calls)) :
    ∃ n, run n none (flatten program) = some (event, calls.toArray) := by
  obtain ⟨r, hr, he⟩ := Option.bind_eq_some_iff.mp h
  have hsim := simulates_flatten fuel program
  rw [hr] at hsim
  obtain ⟨event', calls', he', n, hn⟩ := hsim.ends
  rw [he, Option.some.injEq, Prod.mk.injEq] at he'
  obtain ⟨rfl, rfl⟩ := he'
  refine ⟨n, ?_⟩
  have hrun := hn 0 #[]
  simpa [run, State.initial] using hrun

/-- A run of `fuel` rounds does not go through a loop more often than that. -/
theorem evaluate_of_run (h : run fuel none (flatten program) = some (event, calls.toArray)) :
    evaluate fuel program = some (event, calls) := by
  have hsim := simulates_flatten fuel program
  cases hr : evalAll fuel 0 0 {} program with
  | none =>
    rw [hr] at hsim
    cases hsim with
    | @running n pc' env' calls' hn hreach =>
      -- the run would still be going on after `n` rounds
      have hlong := runFrom_of_le hn h
      have hgoing := hreach 0 0 #[]
      rw [Nat.add_zero, runFrom] at hgoing
      have hnone : runFrom (flatten program) none n .initial #[] = none := hgoing
      rw [hnone] at hlong
      cases hlong
  | some r =>
    rw [hr] at hsim
    obtain ⟨event', calls', he, -⟩ := hsim.ends
    have heval : evaluate fuel program = some (event', calls') := by
      rw [evaluate, hr, Option.bind_some, he]
    obtain ⟨n, hn⟩ := run_of_evaluate heval
    have heq := runFrom_unique h hn
    rw [Prod.mk.injEq] at heq
    obtain ⟨rfl, hcalls⟩ := heq
    rw [heval, List.toArray_inj hcalls]

/-- **Structured control flow.**  A run of a flattened program ends just when the program does, with the same event,
the same faults on the same lines and the same calls.  A limit on the number of lines can only cut it short, and does
not if it is high enough. -/
theorem structured_control_flow (program : List Construct) (event : Event) (calls : List Call) :
    ((∃ fuel, run fuel none (flatten program) = some (event, calls.toArray)) ↔
      ∃ fuel, evaluate fuel program = some (event, calls)) ∧
    (∀ fuel limit, run fuel limit (flatten program) = some (event, calls.toArray) →
      (∃ fuel, evaluate fuel program = some (event, calls)) ∨
      ∃ n line, limit = some n ∧ event = .failed ⟨.stepLimitExceeded n.repr, some line⟩) ∧
    (∀ fuel, evaluate fuel program = some (event, calls) →
      ∃ least, ∀ n, least ≤ n → ∃ fuel, run fuel (some n) (flatten program) = some (event, calls.toArray)) := by
  refine ⟨⟨?_, ?_⟩, ?_, ?_⟩
  · rintro ⟨fuel, h⟩
    exact ⟨fuel, evaluate_of_run h⟩
  · rintro ⟨fuel, h⟩
    exact run_of_evaluate h
  · intro fuel limit h
    rcases runFrom_limit h with h | h
    · exact Or.inl ⟨fuel, evaluate_of_run h⟩
    · exact Or.inr h
  · intro fuel h
    obtain ⟨m, hm⟩ := run_of_evaluate h
    refine ⟨m, ?_⟩
    intro n hn
    have hsteps : State.initial.steps + m ≤ n := by
      show 0 + m ≤ n
      omega
    exact ⟨m, runFrom_of_limit_le hsteps hm⟩

-- `continue 3` leaves the `if` and the inner loop for a new pass of the outer one, `break 2` leaves both loops, and
-- behind them `j` is gone
example : (evaluate 2
    [.simple ⟨["integer", "i"]⟩ rfl,
      .while_ (.symbol "true")
        [.while_ (.symbol "true")
          [.simple ⟨["integer", "j"]⟩ rfl, .simple ⟨["i", "=", "i", "+", "1"]⟩ rfl,
            .if_ (.binary "i" "==" "1") [.simple ⟨["continue", "3"]⟩ rfl], .simple ⟨["break", "2"]⟩ rfl]],
      .simple ⟨["print", "i"]⟩ rfl, .simple ⟨["print", "j"]⟩ rfl]).map Prod.fst =
    some (.failed ⟨.undeclared "j", some 12⟩) := by
  decide +kernel

end Programs

end LineScript.Machine
