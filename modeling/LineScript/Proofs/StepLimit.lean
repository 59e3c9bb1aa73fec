import LineScript.Proofs.Rounds

/-!
# LineScript.Proofs.StepLimit — a limit only cuts runs short

Under a limit of `n` lines a run is the run without a limit as long as no more than `n` lines are executed, and it ends
on the line that would be the next.

* `Machine.stateAt_of_le_limit`: up to the limit the states are the same.
* `Machine.exists_stateAt_of_long`: a run that executes more lines, or does not end, has a line behind the limit.
* `Machine.step_limit_truncates`: how a run under a limit ends.
-/

namespace LineScript.Machine

variable {listing : Listing} {limit n fuel : Nat} {s : State}

/-! ### Rounds under a limit -/

theorem turn_of_steps_lt (h : s.steps < limit) : turn listing (some limit) s = turn listing none s := by
  rcases turn_limit listing (some limit) s with ht | ⟨n, hn, hle, -⟩
  · exact ht
  · cases hn
    omega

/-- Behind the last line the limit is not looked at. -/
theorem turn_of_size_le (h : listing.size ≤ s.pc) : turn listing (some limit) s = turn listing none s := by
  unfold turn
  rw [Listing.line?_eq_none_iff.mpr h]

theorem turn_of_limit_le (hpc : s.pc < listing.size) (h : limit ≤ s.steps) :
    turn listing (some limit) s = fail [] ⟨.stepLimitExceeded limit.repr, some s.pc⟩ := by
  obtain ⟨line, hline⟩ := Listing.exists_line?_of_lt hpc
  exact turn_of_ending (.exhausted hline (if_pos h))

/-! ### Runs under a limit -/

theorem stateAt_of_le_limit (h : n ≤ limit) : stateAt listing (some limit) n = stateAt listing none n := by
  induction n with
  | zero => rfl
  | succ n ih =>
    rw [stateAt, stateAt, ih (by omega)]
    cases hs : stateAt listing none n with
    | none => rfl
    | some s =>
      have hsteps := steps_of_stateAt hs
      rw [Option.bind_some, Option.bind_some, turn_of_steps_lt (by omega)]

theorem callsMade_of_le_limit (h : n ≤ limit) : callsMade listing (some limit) n = callsMade listing none n := by
  induction n with
  | zero => rfl
  | succ n ih =>
    rw [callsMade, callsMade, ih (by omega), stateAt_of_le_limit (by omega)]
    cases hs : stateAt listing none n with
    | none => rfl
    | some s =>
      have hsteps := steps_of_stateAt hs
      simp only
      rw [turn_of_steps_lt (by omega)]

/-- A run that executes no more lines than the limit allows does not notice it. -/
theorem run_of_length_le {r : Event × Array Call} (h : run fuel none listing = some r)
    (hlen : (executed listing none fuel).length ≤ limit) : run (limit + 1) (some limit) listing = some r := by
  obtain ⟨event, calls⟩ := r
  obtain ⟨n, s, last, hn, hs, ht, rfl⟩ := run_eq_some_iff.mp h
  have hsteps := steps_of_stateAt hs
  have hle : n ≤ limit := by
    have hpre : (executed listing none n).length ≤ (executed listing none fuel).length :=
      (executed_prefix_of_le hn.le).length_le
    rw [length_executed hs] at hpre
    omega
  have hturn : turn listing (some limit) s = .done event last := by
    rcases Nat.lt_or_ge s.pc listing.size with hpc | hpc
    · -- the last round executes a line too, and it is counted
      have hlast : (executed listing none fuel)[n]? = some s.pc :=
        getElem?_executed_eq_some_iff.mpr ⟨hn, s, hs, executes?_eq_some_iff.mpr ⟨hpc, rfl, rfl⟩⟩
      obtain ⟨hlt, -⟩ := List.getElem?_eq_some_iff.mp hlast
      rw [turn_of_steps_lt (by omega), ht]
    · rw [turn_of_size_le hpc, ht]
  rw [← stateAt_of_le_limit hle] at hs
  rw [← callsMade_of_le_limit hle]
  exact run_eq_some_iff.mpr ⟨n, s, last, by omega, hs, hturn, rfl⟩

/-- A run that executes more lines than the limit allows, or does not end, has a line behind the limit. -/
theorem exists_stateAt_of_long
    (h : (∀ fuel, run fuel none listing = none) ∨ ∃ n, limit < (executed listing none n).length) :
    ∃ s, stateAt listing none limit = some s ∧ s.pc < listing.size := by
  rcases h with hnone | ⟨n, hlt⟩
  · obtain ⟨s', hs'⟩ := run_eq_none_iff.mp (hnone (limit + 1))
    obtain ⟨s, calls, hs, ht⟩ := stateAt_succ_eq_some hs'
    exact ⟨s, hs, (executes?_eq_some_iff.mp (executes?_of_more ht)).1⟩
  · obtain ⟨-, s, hs, he⟩ := getElem?_executed_eq_some_iff.mp (List.getElem?_eq_getElem hlt)
    exact ⟨s, hs, (executes?_eq_some_iff.mp he).1⟩

/-- Where there is a line behind the limit, the run ends on it. -/
theorem run_of_stateAt_limit (hs : stateAt listing none limit = some s) (hpc : s.pc < listing.size) :
    run (limit + 1) (some limit) listing =
      some (.failed ⟨.stepLimitExceeded limit.repr, some s.pc⟩,
        (callsMade listing none limit ++
          [Call.error (Fault.report ⟨.stepLimitExceeded limit.repr, some s.pc⟩)]).toArray) := by
  have hsteps := steps_of_stateAt hs
  rw [← stateAt_of_le_limit le_rfl] at hs
  rw [← callsMade_of_le_limit le_rfl]
  exact run_eq_some_iff.mpr
    ⟨limit, s, _, Nat.lt_succ_self limit, hs, turn_of_limit_le hpc (by omega), rfl⟩

/-- **A limit only cuts runs short.**  Under a limit every run ends.  A run that without it ends after no more lines
than the limit allows ends in the same way, with the same calls.  Any other run, also one that would never end, fails
because of the limit on the line that would be executed next, after the calls of the lines before and with one
report. -/
theorem step_limit_truncates (listing : Listing) (limit : Nat) :
    (∃ r, run (limit + 1) (some limit) listing = some r) ∧
    (∀ fuel r, run fuel none listing = some r → (executed listing none fuel).length ≤ limit →
      run (limit + 1) (some limit) listing = some r) ∧
    ((∀ fuel, run fuel none listing = none) ∨ (∃ n, limit < (executed listing none n).length) →
      ∃ pc, ∃ fault : Fault, (executed listing none (limit + 1))[limit]? = some pc ∧
        fault = ⟨.stepLimitExceeded limit.repr, some pc⟩ ∧
        run (limit + 1) (some limit) listing =
          some (.failed fault, (callsMade listing none limit ++ [Call.error fault.report]).toArray)) := by
  refine ⟨?_, fun fuel r h hlen => run_of_length_le h hlen, fun h => ?_⟩
  · by_cases h : (∀ fuel, run fuel none listing = none) ∨ ∃ n, limit < (executed listing none n).length
    · obtain ⟨s, hs, hpc⟩ := exists_stateAt_of_long h
      exact ⟨_, run_of_stateAt_limit hs hpc⟩
    · rw [not_or, not_forall, not_exists] at h
      obtain ⟨⟨fuel, hfuel⟩, hshort⟩ := h
      obtain ⟨r, hr⟩ := Option.ne_none_iff_exists'.mp hfuel
      exact ⟨r, run_of_length_le hr (Nat.not_lt.mp (hshort fuel))⟩
  · obtain ⟨s, hs, hpc⟩ := exists_stateAt_of_long h
    have he : executes? listing none s = some s.pc := executes?_eq_some_iff.mpr ⟨hpc, rfl, rfl⟩
    exact ⟨s.pc, _, getElem?_executed_eq_some_iff.mpr ⟨Nat.lt_succ_self limit, s, hs, he⟩, rfl,
      run_of_stateAt_limit hs hpc⟩

/-- A loop without end that prints in every pass. -/
def endlessPrint : Listing :=
  ⟨#[⟨["integer", "i"]⟩, ⟨["while", "true"]⟩, ⟨["print", "i"]⟩, ⟨["//", "again"]⟩, ⟨["end"]⟩]⟩

theorem step_limit_truncates_endlessPrint :
    executed endlessPrint none 8 = [0, 1, 2, 3, 4, 1, 2, 3] ∧
      run 8 (some 7) endlessPrint =
        some (.failed ⟨.stepLimitExceeded "7", some 3⟩,
          #[.print "0", .newline, .print "0", .newline,
            .error "Error on line 3\nExecution step limit of 7 exceeded!\n"]) := by
  have hexec : executed endlessPrint none 8 = [0, 1, 2, 3, 4, 1, 2, 3] := rfl
  obtain ⟨pc, fault, hpc, rfl, hrun⟩ :=
    (step_limit_truncates endlessPrint 7).2.2 (Or.inr ⟨8, by rw [hexec]; decide⟩)
  rw [hexec, show [0, 1, 2, 3, 4, 1, 2, 3][7]? = some 3 from rfl, Option.some.injEq] at hpc
  subst hpc
  exact ⟨hexec, hrun⟩

end LineScript.Machine
