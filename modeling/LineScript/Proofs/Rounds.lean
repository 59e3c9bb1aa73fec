import LineScript.Proofs.Transitions

/-!
# LineScript.Proofs.Rounds — runs, round by round

A run is seen as the states at the top of its loop.  This module says which lines are executed and which calls are
made on the way, and reads the answer of a run off the round that ends it.

* `Machine.executed n`: the lines executed in the first `n` rounds, in order.
* `Machine.callsMade n`: the calls made in the first `n` rounds.
* `Machine.run_eq_some_iff`, `Machine.run_eq_none_iff`: the answer of a run, and a run that is still going on.
* `Machine.turn_limit`: a limit can only end a round by being reached.
-/

namespace LineScript.Machine

variable {listing : Listing} {limit : Option Nat}

/-! ### What happens in a round -/

/-- The line that is executed in a state: none behind the last line, and none when the limit is used up. -/
def executes? (listing : Listing) (limit : Option Nat) (s : State) : Option Nat :=
  if s.pc < listing.size ∧ exhausted? limit s.steps = none then some s.pc else none

/-- The lines executed in the first `n` rounds of a run, in order. -/
def executed (listing : Listing) (limit : Option Nat) : Nat → List Nat
  | 0 => []
  | n + 1 => executed listing limit n ++ ((stateAt listing limit n).bind (executes? listing limit)).toList

/-- The calls of a round. -/
def Turn.calls : Turn → List Call
  | more _ calls => calls
  | done _ calls => calls

/-- The calls made in the first `n` rounds of a run. -/
def callsMade (listing : Listing) (limit : Option Nat) : Nat → List Call
  | 0 => []
  | n + 1 =>
    callsMade listing limit n ++
      match stateAt listing limit n with
      | some s => (turn listing limit s).calls
      | none => []

section Rounds

variable {s s' : State} {calls : List Call} {event : Event}

/-- A line that does not end the run leads to the next round. -/
theorem turn_of_target {line : Line} {move : Move} {target : Nat} (hline : listing.line? s.pc = some line)
    (hlim : exhausted? limit s.steps = none)
    (h : (execute listing s.pc s.env (.ofLine line)).outcome = .ok move) (ht : move.target? s.pc = some target) :
    turn listing limit s =
      .more ⟨target, s.steps + 1, (execute listing s.pc s.env (.ofLine line)).env⟩
        (execute listing s.pc s.env (.ofLine line)).calls := by
  unfold turn
  simp only [hline, hlim, h]
  cases move with
  | next => cases ht; rfl
  | jump target' => cases ht; rfl
  | halt => cases ht

/-- A run ends in each of these ways. -/
theorem turn_of_ending (h : Ending listing limit s event calls) : turn listing limit s = .done event calls := by
  cases h with
  | finished hpc hd => simp [turn, Listing.line?_eq_none_iff.mpr hpc, hd]
  | unterminated hpc hd => simp [turn, Listing.line?_eq_none_iff.mpr hpc, hd, fail]
  | exhausted hline h => simp [turn, hline, h, fail]
  | exited hline hlim h => simp [turn, hline, hlim, h]
  | failed hline hlim h => simp [turn, hline, hlim, h, fail]

theorem executes?_of_more (h : turn listing limit s = .more s' calls) : executes? listing limit s = some s.pc := by
  obtain ⟨line, -, hline, hlim, -⟩ := turn_eq_more h
  exact if_pos ⟨Listing.lt_size_of_line? hline, hlim⟩

theorem executes?_eq_some_iff {i : Nat} :
    executes? listing limit s = some i ↔ s.pc < listing.size ∧ exhausted? limit s.steps = none ∧ i = s.pc := by
  unfold executes?
  by_cases h : s.pc < listing.size ∧ exhausted? limit s.steps = none
  · rw [if_pos h, Option.some.injEq]
    constructor
    · rintro rfl
      exact ⟨h.1, h.2, rfl⟩
    · rintro ⟨-, -, rfl⟩
      rfl
  · rw [if_neg h]
    constructor
    · intro hi
      cases hi
    · rintro ⟨hpc, hlim, -⟩
      exact absurd ⟨hpc, hlim⟩ h

/-- A limit can only end a round by being reached. -/
theorem turn_limit (listing : Listing) (limit : Option Nat) (s : State) :
    turn listing limit s = turn listing none s ∨
    ∃ n, limit = some n ∧ n ≤ s.steps ∧ turn listing limit s = fail [] ⟨.stepLimitExceeded n.repr, some s.pc⟩ := by
  unfold turn
  cases listing.line? s.pc with
  | none => exact Or.inl rfl
  | some line =>
    cases limit with
    | none => exact Or.inl rfl
    | some n =>
      by_cases hn : n ≤ s.steps
      · exact Or.inr ⟨n, rfl, hn, by simp [exhausted?, hn]⟩
      · exact Or.inl (by simp [exhausted?, hn])

end Rounds

/-! ### The states of a run -/

section States

variable {m n : Nat} {s : State}

/-- Every round executes one line. -/
theorem steps_of_stateAt (h : stateAt listing limit n = some s) : s.steps = n := by
  induction n generalizing s with
  | zero =>
    cases h
    rfl
  | succ n ih =>
    obtain ⟨s₀, calls, hs, ht⟩ := stateAt_succ_eq_some h
    obtain ⟨-, -, -, -, -, -, -, hsteps, -⟩ := turn_eq_more ht
    rw [hsteps, ih hs]

theorem exists_stateAt_of_le (hmn : m ≤ n) (h : stateAt listing limit n = some s) :
    ∃ s', stateAt listing limit m = some s' := by
  induction n, hmn using Nat.le_induction generalizing s with
  | base => exact ⟨s, h⟩
  | succ n _ ih =>
    obtain ⟨s₀, calls, hs, -⟩ := stateAt_succ_eq_some h
    exact ih hs

/-- A run has a state after `n` rounds, or one of them has ended it. -/
theorem stateAt_or_done (listing : Listing) (limit : Option Nat) (n : Nat) :
    (∃ s, stateAt listing limit n = some s) ∨
    ∃ m s event last, m < n ∧ stateAt listing limit m = some s ∧ turn listing limit s = .done event last := by
  induction n with
  | zero => exact Or.inl ⟨.initial, rfl⟩
  | succ n ih =>
    rcases ih with ⟨s, hs⟩ | ⟨m, s, event, last, hm, hs, ht⟩
    · cases ht : turn listing limit s with
      | more s' calls => exact Or.inl ⟨s', stateAt_succ hs ht⟩
      | done event last => exact Or.inr ⟨n, s, event, last, Nat.lt_succ_self n, hs, ht⟩
    · exact Or.inr ⟨m, s, event, last, by omega, hs, ht⟩

theorem executed_succ (h : stateAt listing limit n = some s) :
    executed listing limit (n + 1) = executed listing limit n ++ (executes? listing limit s).toList := by
  rw [executed, h, Option.bind_some]

theorem executed_succ_of_more {s' : State} {calls : List Call} (h : stateAt listing limit n = some s)
    (ht : turn listing limit s = .more s' calls) :
    executed listing limit (n + 1) = executed listing limit n ++ [s.pc] := by
  rw [executed_succ h, executes?_of_more ht, Option.toList_some]

theorem callsMade_succ (h : stateAt listing limit n = some s) :
    callsMade listing limit (n + 1) = callsMade listing limit n ++ (turn listing limit s).calls := by
  rw [callsMade, h]

/-- As long as the run goes on there is one line for every round. -/
theorem length_executed (h : stateAt listing limit n = some s) : (executed listing limit n).length = n := by
  induction n generalizing s with
  | zero => rfl
  | succ n ih =>
    obtain ⟨s₀, calls, hs, ht⟩ := stateAt_succ_eq_some h
    rw [executed_succ_of_more hs ht, List.length_append, ih hs, List.length_singleton]

theorem executed_prefix_of_le (hmn : m ≤ n) : executed listing limit m <+: executed listing limit n := by
  induction n, hmn using Nat.le_induction with
  | base => exact List.prefix_refl _
  | succ n _ ih => exact ih.trans (List.prefix_append _ _)

/-- The line with number `i` in the order of execution is the one executed in the state after `i` rounds. -/
theorem getElem?_executed_eq_some_iff {i pc : Nat} :
    (executed listing limit n)[i]? = some pc ↔
      i < n ∧ ∃ s, stateAt listing limit i = some s ∧ executes? listing limit s = some pc := by
  induction n with
  | zero => simp [executed]
  | succ n ih =>
    cases hs : stateAt listing limit n with
    | none =>
      rw [executed, hs, Option.bind_none, Option.toList_none, List.append_nil, ih]
      constructor
      · rintro ⟨hi, h⟩
        exact ⟨by omega, h⟩
      · rintro ⟨hi, s, hsi, h⟩
        have hne : i ≠ n := by
          rintro rfl
          rw [hs] at hsi
          cases hsi
        exact ⟨by omega, s, hsi, h⟩
    | some s =>
      have hlen := length_executed hs
      rw [executed_succ hs]
      rcases Nat.lt_trichotomy i n with hi | rfl | hi
      · rw [List.getElem?_append_left (by omega), ih]
        simp [hi, Nat.lt_succ_of_lt hi]
      · rw [List.getElem?_append_right (by omega), hlen, Nat.sub_self]
        cases he : executes? listing limit s <;> simp [hs, he]
      · have hnone : (executed listing limit n ++ (executes? listing limit s).toList)[i]? = none := by
          rw [List.getElem?_eq_none_iff, List.length_append, hlen]
          have := Option.length_toList_le (o := executes? listing limit s)
          omega
        rw [hnone]
        constructor
        · intro h
          cases h
        · rintro ⟨hlt, -⟩
          omega

theorem mem_executed_iff {pc : Nat} :
    pc ∈ executed listing limit n ↔
      ∃ i < n, ∃ s, stateAt listing limit i = some s ∧ executes? listing limit s = some pc := by
  rw [List.mem_iff_getElem?]
  exact exists_congr fun i => getElem?_executed_eq_some_iff

end States

/-! ### The answer of a run -/

section Answers

variable {fuel n : Nat} {s : State} {event : Event} {calls made : Array Call}

/-- All runs from a state end in the same way. -/
theorem runFrom_unique {fuel' : Nat} {r r' : Event × Array Call} (h : runFrom listing limit fuel s made = some r)
    (h' : runFrom listing limit fuel' s made = some r') : r = r' := by
  have h₁ := runFrom_of_le (Nat.le_max_left fuel fuel') h
  have h₂ := runFrom_of_le (Nat.le_max_right fuel fuel') h'
  rw [h₁] at h₂
  exact Option.some.inj h₂

/-- A run goes through its states, and gathers the calls on the way. -/
theorem run_of_stateAt (fuel : Nat) (h : stateAt listing limit n = some s) :
    run (n + fuel) limit listing = runFrom listing limit fuel s (callsMade listing limit n).toArray := by
  induction n generalizing s fuel with
  | zero =>
    cases h
    rw [Nat.zero_add]
    rfl
  | succ n ih =>
    obtain ⟨s₀, calls, hs, ht⟩ := stateAt_succ_eq_some h
    rw [Nat.add_assoc, Nat.add_comm 1 fuel, ih (fuel + 1) hs, runFrom, ht, callsMade_succ hs, ht, Turn.calls]
    simp

/-- The answer of a run is that of the round that ends it. -/
theorem run_eq_some_iff :
    run fuel limit listing = some (event, calls) ↔
      ∃ n s last, n < fuel ∧ stateAt listing limit n = some s ∧ turn listing limit s = .done event last ∧
        calls = (callsMade listing limit n ++ last).toArray := by
  have hrun : ∀ {n s event last}, n < fuel → stateAt listing limit n = some s →
      turn listing limit s = .done event last →
      run fuel limit listing = some (event, (callsMade listing limit n ++ last).toArray) := by
    intro n s event last hn hs ht
    obtain ⟨k, rfl⟩ : ∃ k, fuel = n + (k + 1) := ⟨fuel - n - 1, by omega⟩
    rw [run_of_stateAt (k + 1) hs, runFrom, ht]
    simp
  constructor
  · intro h
    rcases stateAt_or_done listing limit fuel with ⟨s, hs⟩ | ⟨n, s, event', last, hn, hs, ht⟩
    · have hnone := run_of_stateAt 0 hs
      rw [Nat.add_zero, h, runFrom] at hnone
      cases hnone
    · rw [hrun hn hs ht] at h
      cases h
      exact ⟨n, s, last, hn, hs, ht, rfl⟩
  · rintro ⟨n, s, last, hn, hs, ht, rfl⟩
    exact hrun hn hs ht

/-- A run without an answer is still going on. -/
theorem run_eq_none_iff : run fuel limit listing = none ↔ ∃ s, stateAt listing limit fuel = some s := by
  constructor
  · intro h
    rcases stateAt_or_done listing limit fuel with hs | ⟨n, s, event, last, hn, hs, ht⟩
    · exact hs
    · rw [run_eq_some_iff.mpr ⟨n, s, last, hn, hs, ht, rfl⟩] at h
      cases h
  · rintro ⟨s, hs⟩
    exact run_of_stateAt 0 hs

/-- A run that has ended has executed all its lines. -/
theorem executed_subset_of_run {r : Event × Array Call} (h : run fuel limit listing = some r) (n : Nat) :
    executed listing limit n ⊆ executed listing limit fuel := by
  intro i hi
  obtain ⟨m, -, s, hs, he⟩ := mem_executed_iff.mp hi
  refine mem_executed_iff.mpr ⟨m, ?_, s, hs, he⟩
  by_contra hle
  obtain ⟨s', hs'⟩ := exists_stateAt_of_le (Nat.not_lt.mp hle) hs
  rw [run_eq_none_iff.mpr ⟨s', hs'⟩] at h
  cases h

end Answers

end LineScript.Machine
