import LineScript.Proofs.Causes
import LineScript.Proofs.Rounds

/-!
# LineScript.Proofs.Reporting — what a run writes

Only `print` writes, and it writes a value and a newline.  Whatever fails below the loop does so without a line; the
loop adds the one that it is at and makes one report.

* `Machine.valuesPrinted n`: the values that the first `n` rounds print, in order.
* `Machine.calls_execute`: the calls of one line.
* `Machine.callsMade_eq`: the calls of the rounds before the end.
* `Machine.isExternal_of_failure`: the causes that no line can fail with.
* `Machine.reporting_protocol`: the calls of a run, and the line and the cause of its fault.
-/

namespace LineScript

/-- Causes that no line can fail with: a missing file, and what should not happen at all. -/
def Cause.isExternal : Cause → Bool
  | fileNotFound _ | internalError _ => true
  | _ => false

/-! ### Calls of one line -/

/-- The calls that print a value. -/
def Value.printCalls (v : Value) : List Call :=
  [.print v.text, .print "\n"]

/-- The calls behind the last line of a run: one report of a fault. -/
def Event.reports : Event → List Call
  | finished => []
  | exited => []
  | failed fault => [.error fault.report]

/-- The value that a line prints: for `print name` that of the live variable `name`, and for no other line. -/
def Line.printedValue? (line : Line) (vars : Variables) : Option Value :=
  match line.tokens with
  | ["print", name] => (vars.find? name).map Variable.value
  | _ => none

/-- The value that a statement prints. -/
def Statement.printedValue? (vars : Variables) : Statement → Option Value
  | .print name => (vars.find? name).map Variable.value
  | _ => none

namespace Statement

theorem eq_of_ofKeyword?_print {k : Keyword} {tokens : List String} {name : String}
    (h : ofKeyword? k tokens = some (print name)) : k = .print ∧ tokens = [name] := by
  unfold ofKeyword? at h
  split at h
  case h_8 | h_10 =>
    obtain ⟨e, -, he⟩ := Option.map_eq_some_iff.mp h
    cases he
  all_goals cases h
  exact ⟨rfl, rfl⟩

theorem ofLine_eq_print_iff {line : Line} {name : String} :
    ofLine line = print name ↔ line.tokens = ["print", name] := by
  constructor
  · intro h
    rcases ofLine_cases line with ⟨-, hs⟩ | ⟨k, tokens, ht, hs⟩ | ⟨target, tokens, -, hs⟩
    · rw [h] at hs
      cases hs
    · rw [h] at hs
      obtain ⟨rfl, rfl⟩ := eq_of_ofKeyword?_print hs
      exact ht
    · have hk := keyword?_assignment?_getD target tokens line.text
      rw [← hs, h] at hk
      cases hk
  · intro h
    obtain ⟨tokens⟩ := line
    cases h
    rfl

theorem printedValue?_ofLine (line : Line) (vars : Variables) :
    (ofLine line).printedValue? vars = line.printedValue? vars := by
  unfold Line.printedValue?
  split
  · rename_i name ht
    rw [ofLine_eq_print_iff.mpr ht]
    rfl
  · rename_i hno
    unfold printedValue?
    split
    · rename_i name hst
      exact absurd (ofLine_eq_print_iff.mp hst) (hno name)
    · rfl

end Statement

namespace Machine

variable {listing : Listing} {limit : Option Nat}

section Lines

variable {pc : Nat} {env : Environment}

@[simp] theorem calls_attempt (env : Environment) (result : Except Cause (Environment × Move)) :
    (attempt env result).calls = [] := by
  cases result <;> rfl

theorem calls_enterIf (listing : Listing) (pc : Nat) (env : Environment) (e : Expression) :
    (enterIf listing pc env e).calls = [] := by
  unfold enterIf
  split
  · rfl
  · split
    · rfl
    · split
      · rfl
      · exact calls_attempt _ _

theorem calls_leaveElse (listing : Listing) (env : Environment) : (leaveElse listing env).calls = [] := by
  unfold leaveElse
  split
  · split
    · exact calls_attempt _ _
    · rfl
  · rfl

theorem calls_endBlock (listing : Listing) (env : Environment) : (endBlock listing env).calls = [] := by
  unfold endBlock
  split
  · exact calls_attempt _ _
  · exact calls_attempt _ _
  · rfl

theorem calls_leaveBlocks (listing : Listing) (env : Environment) (levels : Nat) (closing : Bool) :
    (leaveBlocks listing env levels closing).calls = [] := by
  unfold leaveBlocks
  split
  · rfl
  · split
    · rfl
    · exact calls_attempt _ _

theorem calls_leaveNamed (listing : Listing) (env : Environment) (closing : Bool) (symbol : Option String) :
    (leaveNamed listing env closing symbol).calls = [] := by
  cases symbol with
  | none => exact calls_leaveBlocks listing env 1 closing
  | some symbol =>
    rw [leaveNamed]
    split
    · exact calls_leaveBlocks listing env _ closing
    · rfl

theorem calls_print (env : Environment) (name : String) :
    (print env name).calls = ((env.vars.find? name).map Variable.value).toList.flatMap Value.printCalls := by
  rw [print, Variables.fetch]
  cases env.vars.find? name <;> rfl

theorem calls_execute_statement (listing : Listing) (pc : Nat) (env : Environment) (st : Statement) :
    (execute listing pc env st).calls = (st.printedValue? env.vars).toList.flatMap Value.printCalls := by
  cases st with
  | blank | exit | untyped | unrecognized => rfl
  | declare | push | pop | while_ | assign => exact calls_attempt _ _
  | print name => exact calls_print env name
  | if_ e => exact calls_enterIf listing pc env e
  | else_ => exact calls_leaveElse listing env
  | end_ => exact calls_endBlock listing env
  | break_ levels => exact calls_leaveNamed listing env true levels
  | continue_ levels => exact calls_leaveNamed listing env false levels

/-- A line that prints makes two calls, and any other line makes none. -/
theorem calls_execute (listing : Listing) (pc : Nat) (env : Environment) (line : Line) :
    (execute listing pc env (.ofLine line)).calls =
      (line.printedValue? env.vars).toList.flatMap Value.printCalls := by
  rw [calls_execute_statement, Statement.printedValue?_ofLine]

end Lines

/-! ### Calls of a run -/

/-- The value that is printed in a state, if the line executed there prints one. -/
def prints? (listing : Listing) (limit : Option Nat) (s : State) : Option Value :=
  (executes? listing limit s).bind fun pc => (listing.line? pc).bind fun line => line.printedValue? s.env.vars

/-- The values printed in the first `n` rounds of a run, in order. -/
def valuesPrinted (listing : Listing) (limit : Option Nat) : Nat → List Value
  | 0 => []
  | n + 1 => valuesPrinted listing limit n ++ ((stateAt listing limit n).bind (prints? listing limit)).toList

section Runs

variable {n fuel : Nat} {s s' : State} {event : Event} {last : List Call}

theorem prints?_of_line {line : Line} (hline : listing.line? s.pc = some line)
    (hlim : exhausted? limit s.steps = none) : prints? listing limit s = line.printedValue? s.env.vars := by
  have hex : executes? listing limit s = some s.pc :=
    executes?_eq_some_iff.mpr ⟨Listing.lt_size_of_line? hline, hlim, rfl⟩
  rw [prints?, hex, Option.bind_some, hline, Option.bind_some]

theorem prints?_of_executes?_eq_none (h : executes? listing limit s = none) : prints? listing limit s = none := by
  rw [prints?, h, Option.bind_none]

theorem calls_of_more (h : turn listing limit s = .more s' last) :
    last = (prints? listing limit s).toList.flatMap Value.printCalls := by
  obtain ⟨line, -, hline, hlim, -, rfl, -⟩ := turn_eq_more h
  rw [prints?_of_line hline hlim, calls_execute]

/-- The last round prints what its line prints and reports a fault, if there is one. -/
theorem calls_of_done (h : turn listing limit s = .done event last) :
    last = (prints? listing limit s).toList.flatMap Value.printCalls ++ event.reports := by
  cases ending_of_turn h with
  | finished hpc _ | unterminated hpc _ =>
    have hnone : executes? listing limit s = none := if_neg fun hex => Nat.not_lt.mpr hpc hex.1
    rw [prints?_of_executes?_eq_none hnone]
    rfl
  | exhausted hline hlim =>
    have hnone : executes? listing limit s = none := if_neg fun hex => by simp [hlim] at hex
    rw [prints?_of_executes?_eq_none hnone]
    rfl
  | exited hline hlim ho =>
    rw [prints?_of_line hline hlim, calls_execute]
    exact (List.append_nil _).symm
  | failed hline hlim ho =>
    rw [prints?_of_line hline hlim, calls_execute]
    rfl

theorem callsMade_eq (hs : stateAt listing limit n = some s) :
    callsMade listing limit n = (valuesPrinted listing limit n).flatMap Value.printCalls := by
  induction n generalizing s with
  | zero => rfl
  | succ n ih =>
    obtain ⟨s₀, calls, hs₀, ht⟩ := stateAt_succ_eq_some hs
    rw [callsMade_succ hs₀, ht, Turn.calls, ih hs₀, calls_of_more ht, valuesPrinted, hs₀, Option.bind_some,
      List.flatMap_append]

/-- Nothing is printed behind the round that ends the run. -/
theorem valuesPrinted_of_lt (hs : stateAt listing limit n = some s) (ht : turn listing limit s = .done event last)
    (hn : n < fuel) :
    valuesPrinted listing limit fuel = valuesPrinted listing limit n ++ (prints? listing limit s).toList := by
  have hnone : ∀ m, n < m → stateAt listing limit m = none := by
    intro m hm
    cases hstate : stateAt listing limit m with
    | none => rfl
    | some s₁ =>
      obtain ⟨s₂, hs₂⟩ := exists_stateAt_of_le hm hstate
      obtain ⟨s₃, calls, hs₃, ht₃⟩ := stateAt_succ_eq_some hs₂
      rw [hs, Option.some.injEq] at hs₃
      rw [← hs₃, ht] at ht₃
      cases ht₃
  induction fuel, hn using Nat.le_induction with
  | base => rw [valuesPrinted, hs, Option.bind_some]
  | succ m hm ih => rw [valuesPrinted, ih, hnone m hm, Option.bind_none, Option.toList_none, List.append_nil]

end Runs

/-! ### Causes -/

theorem isExternal_of_failure {pc : Nat} {env : Environment} {cause : Cause} (h : Failure listing pc env cause) :
    cause.isExternal = false := by
  cases h with
  | evaluation h =>
    cases cause with
    | fileNotFound | internalError => cases h
    | _ => rfl
  | noBlock | noIf | noEnd | noOuterEnd | tooDeep => rfl

theorem isExternal_of_ending {s : State} {fault : Fault} {last : List Call}
    (h : Ending listing limit s (.failed fault) last) : fault.cause.isExternal = false := by
  cases h with
  | unterminated => rfl
  | exhausted _ hlim =>
    obtain ⟨m, rfl⟩ := exhausted?_eq_some hlim
    rfl
  | failed hline _ ho => exact isExternal_of_failure (failure_of_execute hline ho)

/-- **What a run writes.**  The calls of a run that ends are those of the values printed, each with a newline behind it,
in the order of the lines that printed them; then comes one report if the run has failed, and nothing otherwise.  A run
fails on the line that it executes, or that the limit keeps it from executing, or behind the last line because a block
is still open; it never fails for a cause from outside. -/
theorem reporting_protocol {listing : Listing} {limit : Option Nat} {fuel : Nat} {event : Event} {calls : Array Call}
    (h : run fuel limit listing = some (event, calls)) :
    calls.toList = (valuesPrinted listing limit fuel).flatMap Value.printCalls ++ event.reports ∧
    ∀ fault, event = .failed fault →
      fault.cause.isExternal = false ∧
      ∃ n s last, stateAt listing limit n = some s ∧ turn listing limit s = .done event last ∧
        ((∃ line, listing.line? s.pc = some line ∧ fault.line = some s.pc ∧
            (exhausted? limit s.steps = some fault.cause ∨
              exhausted? limit s.steps = none ∧
                (execute listing s.pc s.env (.ofLine line)).outcome = .error fault.cause)) ∨
          (listing.size ≤ s.pc ∧ fault.line = some listing.size ∧ fault.cause = .unterminatedScope)) := by
  obtain ⟨n, s, last, hn, hs, ht, rfl⟩ := run_eq_some_iff.mp h
  refine ⟨?_, ?_⟩
  · rw [List.toList_toArray, callsMade_eq hs, calls_of_done ht, valuesPrinted_of_lt hs ht hn, List.flatMap_append,
      List.append_assoc]
  · rintro fault rfl
    have hend := ending_of_turn ht
    refine ⟨isExternal_of_ending hend, n, s, last, hs, ht, ?_⟩
    cases hend with
    | unterminated hpc _ => exact Or.inr ⟨hpc, rfl, rfl⟩
    | exhausted hline hlim => exact Or.inl ⟨_, hline, rfl, Or.inl hlim⟩
    | failed hline hlim ho => exact Or.inl ⟨_, hline, rfl, Or.inr ⟨hlim, ho⟩⟩

/-- A script that prints twice and then names an undeclared variable. -/
def printsThenFails : Listing :=
  ⟨#[⟨["logical", "b"]⟩, ⟨["print", "b"]⟩, ⟨["b", "=", "not", "b"]⟩, ⟨["print", "b"]⟩, ⟨["print", "c"]⟩]⟩

theorem reporting_protocol_printsThenFails :
    run 6 none printsThenFails =
        some (.failed ⟨.undeclared "c", some 4⟩, #[.print "false", .print "\n", .print "true", .print "\n",
          .error (Fault.report ⟨.undeclared "c", some 4⟩)]) ∧
      (valuesPrinted printsThenFails none 6).flatMap Value.printCalls =
        [.print "false", .print "\n", .print "true", .print "\n"] := by
  have hrun : run 6 none printsThenFails =
      some (.failed ⟨.undeclared "c", some 4⟩, #[.print "false", .print "\n", .print "true", .print "\n",
        .error (Fault.report ⟨.undeclared "c", some 4⟩)]) := rfl
  obtain ⟨hcalls, -⟩ := reporting_protocol hrun
  exact ⟨hrun, (List.append_cancel_right hcalls).symm⟩

end Machine

end LineScript
