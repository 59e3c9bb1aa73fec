import LineScript.Environment
import LineScript.Listing.Matching
import LineScript.Statement
import LineScript.Terminal

/-!
# LineScript.Machine — running a listing

The machine executes the line at its position, which either goes on to the next line, jumps, or ends the run.

* `Machine.execute`: one statement in an environment.  The reaction keeps the environment also when the statement
  fails.
* `Machine.turn`: one round of the loop: counts the step against the limit, executes the line, moves on.
* `Machine.run`: rounds until the run ends; `none` if it has not ended after `fuel` rounds, and more fuel never changes
  an answer (`Machine.runFrom_of_le`).
-/

namespace LineScript

/-- Where the machine goes after a line. -/
inductive Move
  | next
  | jump (target : Nat)
  | halt
deriving DecidableEq, Repr, Inhabited

/-- What executing a line does: the environment and the calls it leaves, and where to go or why it failed. -/
structure Reaction where
  env : Environment
  calls : List Call := []
  outcome : Except Cause Move

/-- How a run ended. -/
inductive Event
  | finished
  | exited
  | failed (fault : Fault)
deriving DecidableEq, Repr, Inhabited

namespace Machine

/-- The reaction that takes up a new environment, or fails and leaves the old one. -/
def attempt (env : Environment) (result : Except Cause (Environment × Move)) : Reaction :=
  match result with
  | .ok (env', move) => ⟨env', [], .ok move⟩
  | .error cause => ⟨env, [], .error cause⟩

/-- Prints the value of a variable and ends the line. -/
def print (env : Environment) (name : String) : Reaction :=
  match env.vars.fetch name with
  | .ok v => ⟨env, [.print v.value.text, .newline], .ok .next⟩
  | .error cause => ⟨env, [], .error cause⟩

/-- Assigns the value of an expression to a live variable. -/
def assign (env : Environment) (target : String) (e : Expression) : Reaction :=
  attempt env do
    let v ← env.vars.fetch target
    let value ← env.vars.assigned v.ty e
    let vars ← env.vars.store target value
    return (⟨vars, env.blocks⟩, .next)

/-- Opens a block for an `if`, and skips to its `else` or onto its end when the condition does not hold.  The block is
open also when the search for them fails. -/
def enterIf (listing : Listing) (pc : Nat) (env : Environment) (e : Expression) : Reaction :=
  match env.vars.condition e with
  | .error cause => ⟨env, [], .error cause⟩
  | .ok taken =>
    match env.openBlock pc with
    | .error cause => ⟨env, [], .error cause⟩
    | .ok env' =>
      if taken then ⟨env', [], .ok .next⟩
      else
        attempt env' do
          let target ← listing.elseOrCloser pc
          if listing.keyword? target = some .else_ then return (env', .jump (target + 1))
          else return (env', .jump target)

/-- At an `else` the first branch has been run, so the machine goes onto the end of the `if`. -/
def leaveElse (listing : Listing) (env : Environment) : Reaction :=
  match env.opener? 0 with
  | some i =>
    if listing.keyword? i = some .if_ then
      attempt env do return (env, .jump (← listing.closer i))
    else ⟨env, [], .error .elseWithoutIf⟩
  | none => ⟨env, [], .error .elseWithoutIf⟩

/-- Opens a block for a `while` whose condition holds, and skips it otherwise. -/
def enterWhile (listing : Listing) (pc : Nat) (env : Environment) (e : Expression) : Reaction :=
  attempt env do
    if ← env.vars.condition e then
      let env' ← env.openBlock pc
      return (env', .next)
    else
      let target ← listing.closer pc
      return (env, .jump (target + 1))

/-- Ends an `if`, or returns to the `while` so that its condition is tested again. -/
def endBlock (listing : Listing) (env : Environment) : Reaction :=
  match (env.opener? 0).bind listing.keyword? with
  | some .while_ =>
    attempt env do
      let (opener, env') ← env.closeBlock
      return (env', .jump opener)
  | some .if_ =>
    attempt env do
      let (_, env') ← env.closeBlock
      return (env', .next)
  | _ => ⟨env, [], .error .unexpectedEndOfScope⟩

/-- Leaves `levels` blocks.  With `closing` the last of them is closed too and the machine goes on after its end,
otherwise it goes onto the end.  The end is looked up before any block is closed. -/
def leaveBlocks (listing : Listing) (env : Environment) (levels : Nat) (closing : Bool) : Reaction :=
  if levels = 0 ∨ env.depth < levels then ⟨env, [], .error .unexpectedEndOfScope⟩
  else
    match env.opener? (levels - 1) with
    | none => ⟨env, [], .error .unexpectedEndOfScope⟩
    | some opener =>
      attempt env do
        let target ← listing.closer opener
        let env' ← env.closeBlocks (if closing then levels else levels - 1)
        return (env', .jump (if closing then target + 1 else target))

/-- Leaves the number of blocks that a symbol names, or one. -/
def leaveNamed (listing : Listing) (env : Environment) (closing : Bool) : Option String → Reaction
  | none => leaveBlocks listing env 1 closing
  | some symbol =>
    match env.vars.levels symbol with
    | .ok levels => leaveBlocks listing env levels closing
    | .error cause => ⟨env, [], .error cause⟩

/-- Executes a statement that stands on line `pc`. -/
def execute (listing : Listing) (pc : Nat) (env : Environment) : Statement → Reaction
  | .blank => ⟨env, [], .ok .next⟩
  | .exit => ⟨env, [], .ok .halt⟩
  | .declare ty name => attempt env do return (← env.declare name ty, .next)
  | .untyped => ⟨env, [], .error (.internalError "DECLARATION WORD")⟩
  | .push => attempt env do return (← env.openBlock pc, .next)
  | .pop => attempt env do return ((← env.closeBlock).2, .next)
  | .print name => print env name
  | .if_ e => enterIf listing pc env e
  | .else_ => leaveElse listing env
  | .while_ e => enterWhile listing pc env e
  | .end_ => endBlock listing env
  | .break_ levels => leaveNamed listing env true levels
  | .continue_ levels => leaveNamed listing env false levels
  | .assign target e => assign env target e
  | .unrecognized text => ⟨env, [], .error (.unrecognizedCommand text)⟩

/-- The machine between two lines: its position, the number of lines executed, and the environment. -/
structure State where
  pc : Nat := 0
  steps : Nat := 0
  env : Environment := .empty
deriving Inhabited

/-- The state in which every run starts. -/
def State.initial : State := {}

/-- The result of one round: the run goes on, or it is over. -/
inductive Turn
  | more (state : State) (calls : List Call)
  | done (event : Event) (calls : List Call)

/-- A run that is over because of a fault, which it reports. -/
def fail (calls : List Call) (fault : Fault) : Turn :=
  .done (.failed fault) (calls ++ [.error fault.report])

/-- Why one more line may not be executed after `steps` lines, if it may not. -/
def exhausted? (limit : Option Nat) (steps : Nat) : Option Cause :=
  match limit with
  | some n => if n ≤ steps then some (.stepLimitExceeded n.repr) else none
  | none => none

/-- One round of the loop. -/
def turn (listing : Listing) (limit : Option Nat) (s : State) : Turn :=
  match listing.line? s.pc with
  | none =>
    if s.env.depth = 0 then .done .finished []
    else fail [] (.onLine { cause := .unterminatedScope } listing.size)
  | some line =>
    match exhausted? limit s.steps with
    | some cause => fail [] (.onLine { cause } s.pc)
    | none =>
      let reaction := execute listing s.pc s.env (.ofLine line)
      match reaction.outcome with
      | .ok .next => .more ⟨s.pc + 1, s.steps + 1, reaction.env⟩ reaction.calls
      | .ok (.jump target) => .more ⟨target, s.steps + 1, reaction.env⟩ reaction.calls
      | .ok .halt => .done .exited reaction.calls
      | .error cause => fail reaction.calls (.onLine { cause } s.pc)

/-- Rounds from a state until the run is over, at most `fuel` of them.  The calls are gathered behind those made
before. -/
def runFrom (listing : Listing) (limit : Option Nat) : Nat → State → Array Call → Option (Event × Array Call)
  | 0, _, _ => none
  | fuel + 1, s, made =>
    match turn listing limit s with
    | .more s' calls => runFrom listing limit fuel s' (made ++ calls)
    | .done event calls => some (event, made ++ calls)

/-- Runs a listing from the start: how the run ends and the calls it makes. -/
def run (fuel : Nat) (limit : Option Nat) (listing : Listing) : Option (Event × Array Call) :=
  runFrom listing limit fuel .initial #[]

/-- More fuel keeps the answer of a run that has ended. -/
theorem runFrom_of_le {listing : Listing} {limit : Option Nat} {m n : Nat} (hmn : m ≤ n) {s : State}
    {made : Array Call} {r : Event × Array Call} (h : runFrom listing limit m s made = some r) :
    runFrom listing limit n s made = some r := by
  induction m generalizing n s made with
  | zero => cases h
  | succ m ih =>
    obtain ⟨k, rfl⟩ : ∃ k, n = k + 1 := ⟨n - 1, by omega⟩
    rw [runFrom] at h ⊢
    split at h
    · exact ih (by omega) h
    · exact h

end Machine

end LineScript
