import LineScript.Proofs.Renumbering

/-!
# LineScript.Proofs.Unexecuted — lines that are not executed

The searches for the ends of blocks go over lines that a run never executes, and an `else` or `end` looks back at the
line that opened its block.  Of the former only the role counts, and the latter has been executed, so a run does not
depend on anything else in the lines that it leaves out.

* `Listing.sameBlocks_of_roles`: the searches see the roles of lines only.
* `Machine.mem_executed_of_open`: the line that opened an open block has been executed.
* `Machine.turn_congr`: two listings that agree on what is executed make the same rounds.
* `Machine.unexecuted_lines_irrelevant`: so their runs are the same.
-/

namespace LineScript

/-! ### Searches -/

namespace Listing

variable {A B : Listing}

theorem search_congr (hrole : ∀ i, B.role i = A.role i) (alternatives : Bool) (count depth i : Nat) :
    B.search alternatives count depth i = A.search alternatives count depth i := by
  induction count generalizing depth i with
  | zero => rfl
  | succ count ih =>
    rw [search_succ, search_succ, hrole i]
    simp only [ih]

theorem sameBlocks_of_roles (hsize : B.size = A.size) (hrole : ∀ i, B.role i = A.role i) : SameBlocks id A B := by
  refine ⟨hrole, ?_, ?_⟩
  · intro i
    rw [Option.map_id, id, id, closer?, closer?, hsize, search_congr hrole]
  · intro i
    rw [Option.map_id, id, id, elseOrCloser?, elseOrCloser?, hsize, search_congr hrole]

end Listing

theorem Reaction.Renumbered.eq_of_id {r r' : Reaction} (h : r.Renumbered id r') : r' = r := by
  cases h with
  | goes h =>
    rw [Environment.renumber_id]
    cases h with
    | jump h => cases h <;> rfl
    | next => rfl
    | halt => rfl
  | fails => rw [Environment.renumber_id]

/-! ### Runs -/

namespace Machine

variable {A B listing : Listing} {limit : Option Nat} {n : Nat} {s : State}

/-- The line that opened an open block has been executed. -/
theorem mem_executed_of_open (hs : stateAt listing limit n = some s) :
    ∀ i ∈ s.env.blocks.items, i ∈ executed listing limit n := by
  induction n generalizing s with
  | zero =>
    cases hs
    simp [State.initial, Environment.empty]
  | succ n ih =>
    obtain ⟨s₀, calls, hs₀, ht⟩ := stateAt_succ_eq_some hs
    have hold := ih hs₀
    intro i hi
    rw [executed_succ_of_more hs₀ ht, List.mem_append, List.mem_singleton]
    cases (transition_of_stateAt hs₀ hs).change with
    | keep hb _ => exact Or.inl (hold i (hb ▸ hi))
    | declare hd => exact Or.inl (hold i ((Environment.declare_eq_ok_iff.mp hd).2 ▸ hi))
    | enter ho =>
      rw [(Environment.openBlock_eq_ok_iff.mp ho).2.2] at hi
      rcases List.mem_cons.mp hi with rfl | hi
      · exact Or.inr rfl
      · exact Or.inl (hold i hi)
    | leave hc =>
      rw [(Environment.closeBlocks_eq_ok_iff.mp hc).2.1] at hi
      exact Or.inl (hold i (List.mem_of_mem_drop hi))

/-- A round sees the line that it executes, the keywords of the lines that opened the open blocks, and the roles of
all others. -/
theorem turn_congr (hsize : B.size = A.size) (hrole : ∀ i, B.role i = A.role i)
    (hlines : ∀ n, ∀ i ∈ executed A limit n, B.line? i = A.line? i) (hs : stateAt A limit n = some s) :
    turn B limit s = turn A limit s := by
  have hopen : ∀ i ∈ s.env.blocks.items, B.keyword? (id i) = A.keyword? i := by
    intro i hi
    rw [id, Listing.keyword?, hlines n i (mem_executed_of_open hs i hi)]
    rfl
  have hex := fun st => (execute_renumbered (Listing.sameBlocks_of_roles hsize hrole) hopen s.pc st).eq_of_id
  simp only [Environment.renumber_id, id] at hex
  rcases Nat.lt_or_ge s.pc A.size with hpc | hpc
  · cases hlim : exhausted? limit s.steps with
    | some cause =>
      -- the two lines need not be the same, but none is executed
      obtain ⟨line, hline⟩ := Listing.exists_line?_of_lt hpc
      obtain ⟨line', hline'⟩ := Listing.exists_line?_of_lt (hsize ▸ hpc)
      rw [turn_of_ending (.exhausted hline hlim), turn_of_ending (.exhausted hline' hlim)]
    | none =>
      have hmem : s.pc ∈ executed A limit (n + 1) :=
        mem_executed_iff.mpr ⟨n, Nat.lt_succ_self n, s, hs, executes?_eq_some_iff.mpr ⟨hpc, hlim, rfl⟩⟩
      simp only [turn, hlines (n + 1) s.pc hmem, hex, hsize]
  · simp only [turn, Listing.line?_eq_none_iff.mpr hpc, Listing.line?_eq_none_iff.mpr (hsize ▸ hpc), hsize]

theorem stateAt_congr (hturn : ∀ n s, stateAt A limit n = some s → turn B limit s = turn A limit s) (n : Nat) :
    stateAt B limit n = stateAt A limit n := by
  induction n with
  | zero => rfl
  | succ n ih =>
    rw [stateAt, stateAt, ih]
    cases hs : stateAt A limit n with
    | none => rfl
    | some s => rw [Option.bind_some, Option.bind_some, hturn n s hs]

theorem executed_congr (hsize : B.size = A.size)
    (hturn : ∀ n s, stateAt A limit n = some s → turn B limit s = turn A limit s) (n : Nat) :
    executed B limit n = executed A limit n := by
  have hexec : executes? B limit = executes? A limit := by
    funext s
    rw [executes?, executes?, hsize]
  induction n with
  | zero => rfl
  | succ n ih => rw [executed, executed, ih, stateAt_congr hturn, hexec]

theorem runFrom_congr (hturn : ∀ n s, stateAt A limit n = some s → turn B limit s = turn A limit s)
    (hs : stateAt A limit n = some s) (fuel : Nat) (made : Array Call) :
    runFrom B limit fuel s made = runFrom A limit fuel s made := by
  induction fuel generalizing n s made with
  | zero => rfl
  | succ fuel ih =>
    rw [runFrom, runFrom, hturn n s hs]
    cases ht : turn A limit s with
    | more s' calls => exact ih (stateAt_succ hs ht) _
    | done event calls => rfl

/-- **Lines that are not executed.**  Let two listings have the same number of lines, with the same part in the nesting
of blocks line by line, and let them agree on the lines that a run of the first executes.  Then the run of the second
executes the same lines in the same order, and has the same answer after any number of rounds, or none. -/
theorem unexecuted_lines_irrelevant {A B : Listing} {limit : Option Nat} (hsize : B.size = A.size)
    (hrole : ∀ i, B.role i = A.role i) (hlines : ∀ n, ∀ i ∈ executed A limit n, B.line? i = A.line? i) (n : Nat) :
    executed B limit n = executed A limit n ∧ run n limit B = run n limit A := by
  have hturn : ∀ n s, stateAt A limit n = some s → turn B limit s = turn A limit s :=
    fun n s hs => turn_congr hsize hrole hlines hs
  have hinitial : stateAt A limit 0 = some .initial := rfl
  exact ⟨executed_congr hsize hturn n, runFrom_congr hturn hinitial n #[]⟩

/-- A branch that is not taken and a loop without a pass. -/
def leavesOut : Listing :=
  ⟨#[⟨["logical", "b"]⟩, ⟨["if", "b"]⟩, ⟨["print", "b"]⟩, ⟨["end"]⟩, ⟨["while", "b"]⟩, ⟨["if", "b"]⟩, ⟨["end"]⟩,
    ⟨["end"]⟩, ⟨["print", "b"]⟩]⟩

/-- The same with nonsense in the branch and in the loop. -/
def leavesOutNonsense : Listing :=
  ⟨#[⟨["logical", "b"]⟩, ⟨["if", "b"]⟩, ⟨["integer", "1", "+"]⟩, ⟨["end"]⟩, ⟨["while", "b"]⟩, ⟨["push", "?"]⟩,
    ⟨["pop", "pop"]⟩, ⟨["pop"]⟩, ⟨["print", "b"]⟩]⟩

theorem unexecuted_lines_irrelevant_leavesOut :
    executed leavesOutNonsense none 6 = [0, 1, 3, 4, 8] ∧
      run 6 none leavesOutNonsense = some (.finished, #[.print "false", .newline]) := by
  have hexec : executed leavesOut none 6 = [0, 1, 3, 4, 8] := rfl
  have hrun : run 6 none leavesOut = some (.finished, #[.print "false", .newline]) := rfl
  have hrole : ∀ i, leavesOutNonsense.role i = leavesOut.role i := by
    intro i
    rcases Nat.lt_or_ge i 9 with hi | hi
    · have hall : ∀ j < 9, leavesOutNonsense.role j = leavesOut.role j := by decide
      exact hall i hi
    · rw [Listing.role_of_size_le hi, Listing.role_of_size_le hi]
  have hlines : ∀ n, ∀ i ∈ executed leavesOut none n, leavesOutNonsense.line? i = leavesOut.line? i := by
    intro n i hi
    have hmem := executed_subset_of_run hrun n hi
    rw [hexec] at hmem
    have hall : ∀ j ∈ [0, 1, 3, 4, 8], leavesOutNonsense.line? j = leavesOut.line? j := by decide
    exact hall i hmem
  have hsize : leavesOutNonsense.size = leavesOut.size := rfl
  obtain ⟨hexecB, hrunB⟩ := unexecuted_lines_irrelevant hsize hrole hlines 6
  exact ⟨hexecB.trans hexec, hrunB.trans hrun⟩

end Machine

end LineScript
