import LineScript.Proofs.Causes
import LineScript.Proofs.Renaming
import LineScript.Proofs.Unexecuted
import Mathlib.Logic.Equiv.Basic

/-!
# LineScript.Proofs.RenamedRuns — a run under other names

A renaming of the tokens of a listing commutes with everything that the machine does with them: the statement of a line,
the search for the end of a block, the reaction to a statement.  The machine is then in the renamed state, has made the
same calls, and stands on the same line.

* `Environment.rename`, `Line.rename`, `Listing.rename`: the names of variables replaced.
* `Statement.ofLine_rename`: a renamed line gives the renamed statement.
* `Machine.execute_renamed`, `Machine.turn_renamed`: one line and one round.
* `Machine.renaming_invariant`: whole runs.
-/

namespace LineScript

/-! ### Environments -/

namespace Environment

/-- The environment with other names. -/
def rename (r : Renaming) (env : Environment) : Environment :=
  ⟨env.vars.rename r, env.blocks⟩

variable {r : Renaming} (env : Environment)

@[simp] theorem vars_rename : (env.rename r).vars = env.vars.rename r := rfl

@[simp] theorem depth_rename : (env.rename r).depth = env.depth := rfl

@[simp] theorem opener?_rename (level : Nat) : (env.rename r).opener? level = env.opener? level := rfl

theorem agree_declare (name : String) (ty : Ty) :
    Agree r (rename r) (env.declare name ty) ((env.rename r).declare (r name) ty) := by
  unfold declare
  obtain ⟨vars, h, h'⟩ | ⟨cause, cause', h, h', hc⟩ := (env.vars.agree_declare (r := r) name ty env.depth).cases
  · rw [vars_rename, depth_rename, h, h']
    exact .ok _
  · rw [vars_rename, depth_rename, h, h']
    exact .error hc

theorem agree_openBlock (line : Nat) : Agree r (rename r) (env.openBlock line) ((env.rename r).openBlock line) := by
  unfold openBlock
  rw [show (env.rename r).blocks = env.blocks from rfl]
  cases h : env.blocks.push "SCOPES NESTED TOO DEEP" line with
  | ok blocks => exact .ok _
  | error cause =>
    unfold Stack.push at h
    split at h
    · cases h
      exact .error (.outOfMemory _)
    · cases h

theorem agree_closeBlock : Agree r (Prod.map id (rename r)) env.closeBlock (env.rename r).closeBlock := by
  obtain ⟨vars, ⟨items, n, hn⟩⟩ := env
  cases items with
  | nil => exact .error .unexpectedEndOfScope
  | cons line outer =>
    simp only [closeBlock, rename, Stack.pop, Variables.dispose_rename]
    exact .ok (line, _)

theorem agree_closeBlocks (n : Nat) : Agree r (rename r) (env.closeBlocks n) ((env.rename r).closeBlocks n) := by
  induction n generalizing env with
  | zero => exact .ok env
  | succ n ih =>
    rw [closeBlocks, closeBlocks]
    obtain ⟨p, h, h'⟩ | ⟨cause, cause', h, h', hc⟩ := (env.agree_closeBlock (r := r)).cases
    · rw [h, h']
      exact ih p.2
    · rw [h, h']
      exact .error hc

end Environment

/-! ### Lines and listings -/

namespace Line

/-- The line with other names. -/
def rename (r : Renaming) (line : Line) : Line :=
  ⟨line.tokens.map r⟩

variable (r : Renaming) (line : Line)

@[simp] theorem keyword?_rename : (line.rename r).keyword? = line.keyword? := by
  cases line with
  | mk tokens => cases tokens <;> simp [keyword?, rename]

@[simp] theorem role_rename : (line.rename r).role = line.role := by
  rw [role, role, keyword?_rename]

@[simp] theorem isBlank_rename : (line.rename r).isBlank = line.isBlank := by
  cases line with
  | mk tokens => cases tokens <;> simp [isBlank, isEmpty, isComment, rename]

end Line

namespace Listing

/-- The listing with other names. -/
def rename (r : Renaming) (listing : Listing) : Listing :=
  ⟨listing.lines.map (Line.rename r)⟩

variable (r : Renaming) (listing : Listing) (i : Nat)

@[simp] theorem size_rename : (listing.rename r).size = listing.size :=
  Array.size_map

@[simp] theorem line?_rename : (listing.rename r).line? i = (listing.line? i).map (Line.rename r) :=
  Array.getElem?_map

@[simp] theorem keyword?_rename : (listing.rename r).keyword? i = listing.keyword? i := by
  rw [keyword?, keyword?, line?_rename]
  cases listing.line? i <;> simp

theorem sameBlocks_rename : SameBlocks id listing (listing.rename r) := by
  refine sameBlocks_of_roles (size_rename r listing) fun i => ?_
  rw [role, role, line?_rename]
  cases listing.line? i <;> simp

theorem agree_closer : Agree r id (listing.closer i) ((listing.rename r).closer i) := by
  have h : (listing.rename r).closer i = (listing.closer i).map id := (sameBlocks_rename r listing).closer i
  rw [h, closer]
  cases listing.closer? i with
  | some j => exact .ok j
  | none => exact .error .unterminatedScope

theorem agree_elseOrCloser : Agree r id (listing.elseOrCloser i) ((listing.rename r).elseOrCloser i) := by
  have h : (listing.rename r).elseOrCloser i = (listing.elseOrCloser i).map id :=
    (sameBlocks_rename r listing).elseOrCloser i
  rw [h, elseOrCloser]
  cases listing.elseOrCloser? i with
  | some j => exact .ok j
  | none => exact .error .unterminatedScope

end Listing

/-! ### Statements -/

namespace Statement

/-- The statement with other names; a line that is not understood is quoted with another text. -/
def rename (r : Renaming) (text : String) : Statement → Statement
  | blank => blank
  | exit => exit
  | declare ty name => declare ty (r name)
  | untyped => untyped
  | push => push
  | pop => pop
  | print name => print (r name)
  | if_ e => if_ (e.rename r)
  | else_ => else_
  | while_ e => while_ (e.rename r)
  | end_ => end_
  | break_ levels => break_ (levels.map r)
  | continue_ levels => continue_ (levels.map r)
  | assign target e => assign (r target) (e.rename r)
  | unrecognized _ => unrecognized text

variable (r : Renaming) (text : String)

theorem ofKeyword?_map (k : Keyword) (tokens : List String) :
    ofKeyword? k (tokens.map r) = (ofKeyword? k tokens).map (rename r text) := by
  cases k
  case if_ | while_ =>
    simp only [ofKeyword?, Expression.ofTokens?_map, Option.map_map]
    rfl
  all_goals
    match tokens with
    | [] => rfl
    | [_] => rfl
    | _ :: _ :: _ => rfl

theorem assignment?_map (target : String) (tokens : List String) :
    assignment? (r target) (tokens.map r) = (assignment? target tokens).map (rename r text) := by
  cases tokens with
  | nil => rfl
  | cons t tokens =>
    by_cases ht : t = "="
    · subst ht
      rw [List.map_cons, r.apply_eq_equals_iff.mpr rfl]
      simp only [assignment?, Expression.ofTokens?_map, Option.map_map]
      rfl
    · have ht' := mt r.apply_eq_equals_iff.mp ht
      simp [assignment?, ht, ht']

/-- A renamed line gives the renamed statement. -/
theorem ofLine_rename (line : Line) : ofLine (line.rename r) = (ofLine line).rename r (line.rename r).text := by
  -- in both lines the keyword is tried first, and the assignment only where it makes no statement
  have hbind (head : String) (rest : List String) :
      (Keyword.ofText? (r head)).bind (ofKeyword? · (rest.map r)) =
        ((Keyword.ofText? head).bind (ofKeyword? · rest)).map (rename r (line.rename r).text) := by
    rw [r.keyword_apply]
    cases Keyword.ofText? head with
    | none => rfl
    | some k => exact ofKeyword?_map r _ k rest
  unfold ofLine
  rw [Line.isBlank_rename]
  by_cases hb : line.isBlank = true
  · rw [if_pos hb, if_pos hb]
    rfl
  · rw [if_neg hb, if_neg hb]
    cases ht : line.tokens with
    | nil => simp [Line.rename, ht, rename]
    | cons head rest =>
      have ht' : (line.rename r).tokens = r head :: rest.map r := by rw [Line.rename, ht, List.map_cons]
      simp only [ht', hbind, assignment?_map r (line.rename r).text head rest]
      cases (Keyword.ofText? head).bind (ofKeyword? · rest) with
      | some st => rfl
      | none => cases assignment? head rest <;> rfl

theorem text_of_ofLine {line : Line} {text : String} (h : ofLine line = unrecognized text) : text = line.text := by
  rcases ofLine_cases line with ⟨-, hs⟩ | ⟨k, tokens, -, hs⟩ | ⟨target, tokens, -, hs⟩
  · rw [h] at hs
    cases hs
  · rw [h] at hs
    cases keyword?_of_ofKeyword? hs
  · rw [h] at hs
    unfold assignment? at hs
    split at hs
    · rename_i tokens'
      cases he : Expression.ofTokens? tokens' with
      | none =>
        simp only [he, Option.map_none, Option.getD_none, unrecognized.injEq] at hs
        exact hs
      | some e => simp [he] at hs
    · cases hs
      rfl

end Statement

/-! ### One line -/

/-- Reactions that are the same but for names. -/
structure Reaction.Renamed (r : Renaming) (first second : Reaction) : Prop where
  env : second.env = first.env.rename r
  calls : second.calls = first.calls
  outcome : Agree r id first.outcome second.outcome

namespace Machine

variable {r : Renaming} {listing : Listing} {env : Environment}

theorem renamed_ok (env : Environment) (calls : List Call) (move : Move) :
    Reaction.Renamed r ⟨env, calls, .ok move⟩ ⟨env.rename r, calls, .ok move⟩ :=
  ⟨rfl, rfl, .ok move⟩

theorem renamed_error {cause cause' : Cause} (h : cause.Renamed r cause') :
    Reaction.Renamed r ⟨env, [], .error cause⟩ ⟨env.rename r, [], .error cause'⟩ :=
  ⟨rfl, rfl, .error h⟩

theorem agree_move (env : Environment) (move : Move) :
    Agree r (Prod.map (Environment.rename r) id) (.ok (env, move)) (.ok (env.rename r, move)) :=
  .ok (env, move)

theorem attempt_renamed {x x' : Except Cause (Environment × Move)}
    (h : Agree r (Prod.map (Environment.rename r) id) x x') :
    (attempt env x).Renamed r (attempt (env.rename r) x') := by
  cases h with
  | ok a => exact renamed_ok a.1 [] a.2
  | error h => exact renamed_error h

theorem print_renamed (name : String) : (print env name).Renamed r (print (env.rename r) (r name)) := by
  unfold print
  rw [Environment.vars_rename]
  obtain ⟨v, h, h'⟩ | ⟨cause, cause', h, h', hc⟩ := (env.vars.agree_fetch (r := r) name).cases
  · rw [h, h']
    exact renamed_ok env _ .next
  · rw [h, h']
    exact renamed_error hc

theorem assign_renamed (target : String) (e : Expression) :
    (assign env target e).Renamed r (assign (env.rename r) (r target) (e.rename r)) :=
  attempt_renamed <|
    (env.vars.agree_fetch target).bind fun v =>
      (env.vars.agree_assigned v.ty e).bind fun value =>
        (env.vars.agree_store target value).bind fun vars => agree_move ⟨vars, env.blocks⟩ .next

theorem enterIf_renamed (pc : Nat) (e : Expression) :
    (enterIf listing pc env e).Renamed r (enterIf (listing.rename r) pc (env.rename r) (e.rename r)) := by
  unfold enterIf
  rw [Environment.vars_rename]
  obtain ⟨taken, h, h'⟩ | ⟨cause, cause', h, h', hc⟩ := (env.vars.agree_condition (r := r) e).cases
  · rw [h, h']
    obtain ⟨env', ho, ho'⟩ | ⟨cause, cause', ho, ho', hc⟩ := (env.agree_openBlock (r := r) pc).cases
    · simp only [ho, ho', id, Listing.keyword?_rename]
      cases taken with
      | true => exact renamed_ok env' [] .next
      | false =>
        refine attempt_renamed ((listing.agree_elseOrCloser r pc).bind fun j => ?_)
        exact .ite Iff.rfl (agree_move env' (.jump (j + 1))) (agree_move env' (.jump j))
    · simp only [ho, ho']
      exact renamed_error hc
  · rw [h, h']
    exact renamed_error hc

theorem leaveElse_renamed : (leaveElse listing env).Renamed r (leaveElse (listing.rename r) (env.rename r)) := by
  unfold leaveElse
  rw [Environment.opener?_rename]
  cases env.opener? 0 with
  | none => exact renamed_error .elseWithoutIf
  | some i =>
    simp only [Listing.keyword?_rename]
    split
    · exact attempt_renamed ((listing.agree_closer r i).bind fun j => agree_move env (.jump j))
    · exact renamed_error .elseWithoutIf

theorem enterWhile_renamed (pc : Nat) (e : Expression) :
    (enterWhile listing pc env e).Renamed r (enterWhile (listing.rename r) pc (env.rename r) (e.rename r)) := by
  refine attempt_renamed ((env.vars.agree_condition e).bind fun taken => ?_)
  exact .ite Iff.rfl ((env.agree_openBlock pc).bind fun env' => agree_move env' .next)
    ((listing.agree_closer r pc).bind fun j => agree_move env (.jump (j + 1)))

theorem endBlock_renamed : (endBlock listing env).Renamed r (endBlock (listing.rename r) (env.rename r)) := by
  have hkeyword : (listing.rename r).keyword? = listing.keyword? := funext (listing.keyword?_rename r)
  unfold endBlock
  rw [Environment.opener?_rename, hkeyword]
  split
  · exact attempt_renamed (env.agree_closeBlock.bind fun p => agree_move p.2 (.jump p.1))
  · exact attempt_renamed (env.agree_closeBlock.bind fun p => agree_move p.2 .next)
  · exact renamed_error .unexpectedEndOfScope

theorem leaveBlocks_renamed (levels : Nat) (closing : Bool) :
    (leaveBlocks listing env levels closing).Renamed r
      (leaveBlocks (listing.rename r) (env.rename r) levels closing) := by
  unfold leaveBlocks
  rw [Environment.depth_rename, Environment.opener?_rename]
  split
  · exact renamed_error .unexpectedEndOfScope
  · cases env.opener? (levels - 1) with
    | none => exact renamed_error .unexpectedEndOfScope
    | some opener =>
      exact attempt_renamed <|
        (listing.agree_closer r opener).bind fun target =>
          (env.agree_closeBlocks (if closing then levels else levels - 1)).bind fun env' =>
            agree_move env' (.jump (if closing then target + 1 else target))

theorem leaveNamed_renamed (closing : Bool) (symbol : Option String) :
    (leaveNamed listing env closing symbol).Renamed r
      (leaveNamed (listing.rename r) (env.rename r) closing (symbol.map r)) := by
  cases symbol with
  | none => exact leaveBlocks_renamed 1 closing
  | some symbol =>
    rw [Option.map_some, leaveNamed, leaveNamed, Environment.vars_rename]
    obtain ⟨levels, h, h'⟩ | ⟨cause, cause', h, h', hc⟩ := (env.vars.agree_levels (r := r) symbol).cases
    · rw [h, h']
      exact leaveBlocks_renamed levels closing
    · rw [h, h']
      exact renamed_error hc

/-- **A line does the same under other names.** -/
theorem execute_renamed (pc : Nat) (line : Line) :
    (execute listing pc env (.ofLine line)).Renamed r
      (execute (listing.rename r) pc (env.rename r) (.ofLine (line.rename r))) := by
  rw [Statement.ofLine_rename]
  cases hst : Statement.ofLine line with
  | blank => exact renamed_ok env [] .next
  | exit => exact renamed_ok env [] .halt
  | declare ty name => exact attempt_renamed ((env.agree_declare name ty).bind fun env' => agree_move env' .next)
  | untyped => exact absurd hst (Statement.ofLine_ne_untyped line)
  | push => exact attempt_renamed ((env.agree_openBlock pc).bind fun env' => agree_move env' .next)
  | pop => exact attempt_renamed (env.agree_closeBlock.bind fun p => agree_move p.2 .next)
  | print name => exact print_renamed name
  | if_ e => exact enterIf_renamed pc e
  | else_ => exact leaveElse_renamed
  | while_ e => exact enterWhile_renamed pc e
  | end_ => exact endBlock_renamed
  | break_ levels => exact leaveNamed_renamed true levels
  | continue_ levels => exact leaveNamed_renamed false levels
  | assign target e => exact assign_renamed target e
  | unrecognized text =>
    rw [Statement.text_of_ofLine hst]
    exact renamed_error (.unrecognizedCommand line.tokens)

end Machine

/-! ### Rounds and runs -/

/-- The same end of a run but for names: a failure has its cause, with the names that it quotes replaced, and its
line. -/
inductive Event.Renamed (r : Renaming) : Event → Event → Prop
  | finished : Renamed r .finished .finished
  | exited : Renamed r .exited .exited
  | failed {cause cause' : Cause} {line : Option Nat} (h : cause.Renamed r cause') :
      Renamed r (.failed ⟨cause, line⟩) (.failed ⟨cause', line⟩)

theorem Event.Renamed.exists_fault {r : Renaming} {event : Event} {fault' : Fault}
    (h : event.Renamed r (.failed fault')) :
    ∃ fault, event = .failed fault ∧ fault'.cause.name = fault.cause.name ∧ fault'.line = fault.line := by
  cases h with
  | failed h => exact ⟨_, rfl, h.name_eq, rfl⟩

namespace Machine

/-- The state with other names. -/
def State.rename (r : Renaming) (s : State) : State :=
  ⟨s.pc, s.steps, s.env.rename r⟩

/-- Rounds that are the same but for names. -/
inductive Turn.Renamed (r : Renaming) : Turn → Turn → Prop
  | more (s : State) (calls : List Call) : Renamed r (.more s calls) (.more (s.rename r) calls)
  | done {event event' : Event} {calls calls' : List Call} (h : event.Renamed r event')
      (hcalls : printed calls' = printed calls) : Renamed r (.done event calls) (.done event' calls')

theorem Turn.Renamed.state?_eq {r : Renaming} {t t' : Turn} (h : t.Renamed r t') :
    t'.state? = t.state?.map (State.rename r) := by
  cases h <;> rfl

variable {r : Renaming} {listing : Listing} {limit : Option Nat}

theorem fail_renamed {cause cause' : Cause} (h : cause.Renamed r cause') (calls : List Call) (line : Option Nat) :
    (fail calls ⟨cause, line⟩).Renamed r (fail calls ⟨cause', line⟩) :=
  .done (.failed h) ((printed_report _ _).trans (printed_report _ _).symm)

/-- A round does the same under other names. -/
theorem turn_renamed (s : State) : (turn listing limit s).Renamed r (turn (listing.rename r) limit (s.rename r)) := by
  unfold turn State.rename
  rw [Listing.line?_rename, Listing.size_rename, Environment.depth_rename]
  cases listing.line? s.pc with
  | none =>
    simp only [Option.map_none]
    split
    · exact .done .finished rfl
    · exact fail_renamed .unterminatedScope _ _
  | some line =>
    simp only [Option.map_some]
    cases hlim : exhausted? limit s.steps with
    | some cause =>
      obtain ⟨n, rfl⟩ := exhausted?_eq_some hlim
      exact fail_renamed (.stepLimitExceeded _) _ _
    | none =>
      have hex : (execute listing s.pc s.env (.ofLine line)).Renamed r
          (execute (listing.rename r) s.pc (s.env.rename r) (.ofLine (line.rename r))) :=
        execute_renamed s.pc line
      obtain ⟨henv, hcalls, hout⟩ := hex
      simp only [henv, hcalls]
      obtain ⟨move, h, h'⟩ | ⟨cause, cause', h, h', hc⟩ := hout.cases
      · rw [h, h']
        cases move with
        | next => exact .more _ _
        | jump target => exact .more _ _
        | halt => exact .done .exited rfl
      · rw [h, h']
        exact fail_renamed hc _ _

theorem stateAt_rename (n : Nat) :
    stateAt (listing.rename r) limit n = (stateAt listing limit n).map (State.rename r) := by
  induction n with
  | zero => rfl
  | succ n ih =>
    rw [stateAt, stateAt, ih]
    cases stateAt listing limit n with
    | none => rfl
    | some s => exact (turn_renamed s).state?_eq

theorem executed_rename (n : Nat) : executed (listing.rename r) limit n = executed listing limit n := by
  induction n with
  | zero => rfl
  | succ n ih =>
    rw [executed, executed, ih, stateAt_rename]
    cases stateAt listing limit n with
    | none => rfl
    | some s =>
      simp only [Option.map_some, Option.bind_some, executes?, Listing.size_rename]
      rfl

/-- Runs from states that are the same but for names have answers that are, or none. -/
theorem runFrom_renamed (fuel : Nat) (s : State) (made : Array Call) :
    Option.Rel (fun answer answer' => answer.1.Renamed r answer'.1 ∧ printed answer'.2.toList = printed answer.2.toList)
      (runFrom listing limit fuel s made) (runFrom (listing.rename r) limit fuel (s.rename r) made) := by
  induction fuel generalizing s made with
  | zero => exact .none
  | succ fuel ih =>
    have hturn : (turn listing limit s).Renamed r (turn (listing.rename r) limit (s.rename r)) := turn_renamed s
    rw [runFrom, runFrom]
    generalize turn listing limit s = t at hturn
    generalize turn (listing.rename r) limit (s.rename r) = t' at hturn
    cases hturn with
    | more s' calls =>
      -- up to here the calls are the same, so both runs gather them behind the same ones
      exact ih s' (made ++ calls)
    | done h hcalls =>
      refine .some ⟨h, ?_⟩
      simp [printed_append, hcalls]

/-- **The names of variables do not matter.**  Let a listing be renamed: plain names one to one by plain names, and no
other token, so that variables whose names are numbers keep them.  The run of the renamed listing executes the same
lines in the same order, and has an answer after any number of rounds exactly when the run of the listing has one.  It
then prints the same texts and ends in the same way.  A failure has the same cause and line, and only the names that it
quotes are others. -/
theorem renaming_invariant (r : Renaming) (listing : Listing) (limit : Option Nat) (n : Nat) :
    executed (listing.rename r) limit n = executed listing limit n ∧
    (run n limit (listing.rename r) = none ↔ run n limit listing = none) ∧
    ∀ event calls, run n limit listing = some (event, calls) →
      ∃ event' calls', run n limit (listing.rename r) = some (event', calls') ∧
        printed calls'.toList = printed calls.toList ∧ event.Renamed r event' ∧
        ∀ fault', event' = .failed fault' →
          ∃ fault, event = .failed fault ∧ fault'.cause.name = fault.cause.name ∧ fault'.line = fault.line := by
  have hrun : Option.Rel _ (run n limit listing) (run n limit (listing.rename r)) :=
    runFrom_renamed n .initial #[]
  refine ⟨executed_rename n, ?_⟩
  generalize run n limit listing = x at hrun ⊢
  generalize run n limit (listing.rename r) = x' at hrun ⊢
  cases hrun with
  | none => exact ⟨Iff.rfl, fun event calls h => nomatch h⟩
  | @some answer answer' h =>
    obtain ⟨hevent, hprinted⟩ := h
    refine ⟨by simp, ?_⟩
    intro event calls hanswer
    cases hanswer
    refine ⟨answer'.1, answer'.2, rfl, hprinted, hevent, ?_⟩
    intro fault' hfault
    rw [hfault] at hevent
    exact hevent.exists_fault

end Machine

/-- Two plain names change places. -/
def Renaming.swap (a b : String) (ha : Name.IsPlain a) (hb : Name.IsPlain b) : Renaming where
  toFun := Equiv.swap a b
  injective := (Equiv.swap a b).injective
  plain := by
    intro s hs
    rw [Equiv.swap_apply_def]
    split
    · exact hb
    · split
      · exact ha
      · exact hs
  fixed := by
    intro s hs
    refine Equiv.swap_apply_of_ne_of_ne ?_ ?_
    · rintro rfl
      exact hs ha
    · rintro rfl
      exact hs hb

namespace Machine

/-- A script with a variable `1`, which stands for itself and not for the number. -/
def numberedVariable : Listing :=
  ⟨#[⟨["integer", "1"]⟩, ⟨["1", "=", "7"]⟩, ⟨["integer", "x"]⟩, ⟨["x", "=", "1"]⟩, ⟨["print", "x"]⟩, ⟨["print", "y"]⟩]⟩

/-- The names `x` and `y` change places. -/
def swapXY : Renaming :=
  .swap "x" "y" (by decide) (by decide)

theorem renaming_invariant_numberedVariable :
    numberedVariable.rename swapXY =
        ⟨#[⟨["integer", "1"]⟩, ⟨["1", "=", "7"]⟩, ⟨["integer", "y"]⟩, ⟨["y", "=", "1"]⟩, ⟨["print", "y"]⟩,
          ⟨["print", "x"]⟩]⟩ ∧
      executed (numberedVariable.rename swapXY) none 7 = [0, 1, 2, 3, 4, 5] ∧
      ∃ calls', run 7 none (numberedVariable.rename swapXY) = some (.failed ⟨.undeclared "x", some 5⟩, calls') ∧
        printed calls'.toList = ["7", "\n"] := by
  obtain ⟨hexec, -, hanswer⟩ := renaming_invariant swapXY numberedVariable none 7
  have hrun : run 7 none numberedVariable =
      some (.failed ⟨.undeclared "y", some 5⟩,
        #[.print "7", .print "\n", .error (Fault.report ⟨.undeclared "y", some 5⟩)]) := rfl
  have hname : swapXY "y" = "x" := by decide
  obtain ⟨event', calls', hrun', hprinted, hevent, -⟩ := hanswer _ _ hrun
  cases hevent with
  | failed hcause =>
    cases hcause
    rw [hname] at hrun'
    refine ⟨?_, hexec.trans rfl, calls', hrun', hprinted⟩
    simp only [numberedVariable, Listing.rename, Line.rename, List.map_toArray, List.map_cons, List.map_nil]
    decide

end Machine

end LineScript
