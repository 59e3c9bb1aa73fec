import LineScript.Proofs.BlockStructure
import LineScript.Proofs.Rounds

/-!
# LineScript.Proofs.Termination — only loops go back

An `else`, a `break` and a `continue` search from a line further up for the end of a block.  Still they lead down the
listing, because the block encloses the line that they stand on.  Only the `end` of a `while` leads up, so without one
a run is over after one pass through the listing.

* `Listing.EndsLoop i w`: line `i` is the `end` of the `while` on line `w`.
* `Listing.le_closer?`: the end of a block is not above a line that the block encloses.
* `Machine.Transition.lt_or_endsLoop`, `Machine.Transition.eq_of_endsLoop`: where a line leads.
* `Machine.le_pc_of_noLoop`: without a `while` every round goes down the listing.
-/

namespace LineScript

namespace Listing

/-- Line `i` is the `end` that closes the block of the `while` on line `w`. -/
def EndsLoop (listing : Listing) (i w : Nat) : Prop :=
  listing.firstToken? i = some "end" ∧ listing.firstToken? w = some "while" ∧
    ∃ outer, listing.nesting? i = some (w :: outer)

variable {listing : Listing}

/-- The end of a block is not above a line that the block encloses. -/
theorem le_closer? {k i j : Nat} {inner outer : List Nat} (h : listing.nesting? k = some (inner ++ i :: outer))
    (hj : listing.closer? i = some j) : k ≤ j ∧ listing.role j = .closer := by
  rw [closer?_eq_search h] at hj
  obtain ⟨hle, -, hr⟩ := nesting?_of_search h hj
  exact ⟨hle, by simpa using hr⟩

theorem lt_closer? {k i j : Nat} {inner outer : List Nat} (h : listing.nesting? k = some (inner ++ i :: outer))
    (hj : listing.closer? i = some j) (hr : listing.role k ≠ .closer) : k < j := by
  obtain ⟨hle, hrj⟩ := le_closer? h hj
  have hne : k ≠ j := by
    rintro rfl
    exact hr hrj
  omega

end Listing

namespace Machine

variable {listing : Listing} {limit : Option Nat}

/-! ### One line -/

section Lines

variable {pc target : Nat} {env env' : Environment}

/-- A line leads down the listing, or it ends a loop and leads back to its `while`. -/
theorem Transition.lt_or_endsLoop (h : Transition listing pc env env' target)
    (hn : listing.nesting? pc = some env.blocks.items) : pc < target ∨ listing.EndsLoop pc target := by
  cases h with
  | pass | declare | store | enter | close => exact Or.inl (Nat.lt_succ_self pc)
  | enterElse hk h hj he =>
    have hlt := (Listing.nesting?_of_elseOrCloser? hn (Listing.role_of_keyword? hk) hj).1
    exact Or.inl (by omega)
  | enterEnd hk h hj he =>
    exact Or.inl (Listing.nesting?_of_elseOrCloser? hn (Listing.role_of_keyword? hk) hj).1
  | skip hk hj =>
    have hlt := (Listing.nesting?_of_closer? hn (Listing.role_of_keyword? hk) hj).1
    exact Or.inl (by omega)
  | alternative hk hi hif hj =>
    have hr : listing.role pc = .alternative := Listing.role_of_keyword? hk
    exact Or.inl (Listing.lt_closer? (nesting?_split hn hi) hj (by rw [hr]; decide))
  | @loop i env' h hk hw =>
    rw [(Environment.closeBlock_eq_ok_iff.mp h).1] at hn
    exact Or.inr ⟨Listing.keyword?_eq_some_iff.mp hk, Listing.keyword?_eq_some_iff.mp hw, _, hn⟩
  | @leave n i j closing env' hr hi hj h =>
    have hlt : pc < j := Listing.lt_closer? (nesting?_split hn hi) hj (by rw [hr]; decide)
    cases closing with
    | true => exact Or.inl (Nat.lt_succ_of_lt hlt)
    | false => exact Or.inl hlt

/-- The `end` of a loop leads nowhere else. -/
theorem Transition.eq_of_endsLoop {w : Nat} (h : Transition listing pc env env' target)
    (hn : listing.nesting? pc = some env.blocks.items) (he : listing.EndsLoop pc w) : target = w := by
  obtain ⟨hend, hwhile, outer, hw⟩ := he
  have hk : listing.keyword? pc = some .end_ := Listing.keyword?_eq_some_iff.mpr hend
  have hkw : listing.keyword? w = some .while_ := Listing.keyword?_eq_some_iff.mpr hwhile
  have hrole : listing.role pc = .closer := Listing.role_of_keyword? hk
  have hitems : env.blocks.items = w :: outer := by
    rw [hn, Option.some.injEq] at hw
    exact hw
  cases h with
  | pass hr | declare hr | store hr | enter hr | leave hr =>
    rw [hr] at hrole
    cases hrole
  | enterElse hk' | enterEnd hk' | skip hk' | alternative hk' =>
    rw [hk] at hk'
    cases hk'
  | close h hk' =>
    rw [(Environment.closeBlock_eq_ok_iff.mp h).1] at hitems
    obtain ⟨rfl, -⟩ := List.cons_eq_cons.mp hitems
    rw [hk, hkw] at hk'
    simp at hk'
  | loop h =>
    rw [(Environment.closeBlock_eq_ok_iff.mp h).1] at hitems
    exact (List.cons_eq_cons.mp hitems).1

end Lines

/-! ### Runs without loops -/

section NoLoop

variable {n : Nat} {s s' : State}

theorem pc_lt_or_endsLoop (hs : stateAt listing limit n = some s)
    (hs' : stateAt listing limit (n + 1) = some s') : s.pc < s'.pc ∨ listing.EndsLoop s.pc s'.pc :=
  (transition_of_stateAt hs hs').lt_or_endsLoop (nesting?_of_stateAt hs).2

/-- Without a `while` every round goes down the listing. -/
theorem le_pc_of_noLoop (hw : ∀ i, listing.firstToken? i ≠ some "while") (hs : stateAt listing limit n = some s) :
    n ≤ s.pc ∧ ∀ i ∈ executed listing limit n, i < s.pc := by
  induction n generalizing s with
  | zero => exact ⟨Nat.zero_le _, by simp [executed]⟩
  | succ n ih =>
    obtain ⟨s₀, calls, hs₀, ht⟩ := stateAt_succ_eq_some hs
    obtain ⟨hle, hall⟩ := ih hs₀
    have hlt : s₀.pc < s.pc := by
      rcases pc_lt_or_endsLoop hs₀ hs with hlt | hloop
      · exact hlt
      · exact absurd hloop.2.1 (hw s.pc)
    refine ⟨by omega, ?_⟩
    intro i hi
    rw [executed_succ_of_more hs₀ ht, List.mem_append, List.mem_singleton] at hi
    rcases hi with hi | rfl
    · exact (hall i hi).trans hlt
    · exact hlt

theorem executed_increases (hw : ∀ i, listing.firstToken? i ≠ some "while") (n : Nat) :
    (executed listing limit n).Pairwise (· < ·) := by
  induction n with
  | zero => exact List.Pairwise.nil
  | succ n ih =>
    cases hs : stateAt listing limit n with
    | none =>
      rw [executed, hs, Option.bind_none, Option.toList_none, List.append_nil]
      exact ih
    | some s =>
      rw [executed_succ hs, List.pairwise_append]
      refine ⟨ih, ?_, ?_⟩
      · cases executes? listing limit s <;> simp
      · intro i hi j hj
        rw [Option.mem_toList] at hj
        obtain ⟨-, -, rfl⟩ := executes?_eq_some_iff.mp hj
        exact (le_pc_of_noLoop hw hs).2 i hi

theorem length_executed_le (hw : ∀ i, listing.firstToken? i ≠ some "while") (n : Nat) :
    (executed listing limit n).length ≤ listing.size := by
  by_contra hlong
  obtain ⟨-, s, hs, he⟩ := getElem?_executed_eq_some_iff.mp (List.getElem?_eq_getElem (Nat.not_le.mp hlong))
  have hlt := (executes?_eq_some_iff.mp he).1
  have hle := (le_pc_of_noLoop hw hs).1
  omega

theorem exists_run_of_noLoop (hw : ∀ i, listing.firstToken? i ≠ some "while") :
    ∃ r, run (listing.size + 1) limit listing = some r := by
  cases hrun : run (listing.size + 1) limit listing with
  | some r => exact ⟨r, rfl⟩
  | none =>
    obtain ⟨s, hs⟩ := run_eq_none_iff.mp hrun
    have hle := (le_pc_of_noLoop hw hs).1
    have hsize := (nesting?_of_stateAt hs).1
    omega

end NoLoop

/-- **Only loops go back.**  From every state of a run a line that does not end the run leads down the listing, but for
the `end` of a `while`, which leads to just that `while`.  So a listing without a `while` is over after one pass: no
line is executed twice, and with or without a limit the run ends. -/
theorem backward_jumps_are_loops (listing : Listing) (limit : Option Nat) :
    (∀ n s s', stateAt listing limit n = some s → stateAt listing limit (n + 1) = some s' →
      ((∀ w, ¬ listing.EndsLoop s.pc w) → s.pc < s'.pc) ∧ ∀ w, listing.EndsLoop s.pc w → s'.pc = w) ∧
    ((∀ i, listing.firstToken? i ≠ some "while") →
      (∃ r, run (listing.size + 1) limit listing = some r) ∧
      ∀ n, (executed listing limit n).Nodup ∧ (executed listing limit n).length ≤ listing.size) := by
  refine ⟨fun n s s' hs hs' => ⟨fun hno => ?_, fun w hw => ?_⟩, fun hw => ⟨exists_run_of_noLoop hw, fun n => ?_⟩⟩
  · rcases pc_lt_or_endsLoop hs hs' with hlt | hloop
    · exact hlt
    · exact absurd hloop (hno _)
  · exact (transition_of_stateAt hs hs').eq_of_endsLoop (nesting?_of_stateAt hs).2 hw
  · exact ⟨(executed_increases hw n).imp Nat.ne_of_lt, length_executed_le hw n⟩

/-- A listing without a loop, whose `continue` leaves the inner `if` and goes onto the end of the outer one. -/
def leavesTwice : Listing :=
  ⟨#[⟨["push"]⟩, ⟨["if", "true"]⟩, ⟨["if", "true"]⟩, ⟨["continue", "2"]⟩, ⟨["end"]⟩, ⟨["else"]⟩, ⟨["end"]⟩, ⟨["pop"]⟩]⟩

theorem backward_jumps_are_loops_leavesTwice :
    (∃ s s', stateAt leavesTwice none 3 = some s ∧ stateAt leavesTwice none 4 = some s' ∧ s.pc = 3 ∧ s'.pc = 6) ∧
      executed leavesTwice none 9 = [0, 1, 2, 3, 6, 7] ∧ (executed leavesTwice none 9).Nodup ∧
      ∃ r, run 9 none leavesTwice = some r := by
  have hw : ∀ i, leavesTwice.firstToken? i ≠ some "while" := by
    intro i h
    have hi : i < 8 := by
      obtain ⟨line, hline, -⟩ := Option.bind_eq_some_iff.mp h
      exact Listing.lt_size_of_line? hline
    have hall : ∀ j < 8, leavesTwice.firstToken? j ≠ some "while" := by decide
    exact hall i hi h
  obtain ⟨hrun, hexec⟩ := (backward_jumps_are_loops leavesTwice none).2 hw
  exact ⟨⟨_, _, rfl, rfl, rfl, rfl⟩, rfl, (hexec 9).1, hrun⟩

end Machine

end LineScript
