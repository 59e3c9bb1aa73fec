import LineScript.Machine

/-!
# LineScript.Engine — many runs at one terminal

An engine runs one listing after the other and keeps what they wrote.  A run starts at the first line with an empty
environment and no line counted; whatever it created is dropped when it ends, and only the position and the number of
lines counted stay as they were, until the next run starts.

* `Engine.rounds`: rounds until a run is over; they are the rounds of `Machine.runFrom` (`Engine.rounds_eq`).
* `Engine.runListing`: runs a listing (`Engine.map_runListing`).
* `Engine.leaveBlocks`: leaves open blocks; between runs there is none.
* `Engine.print`: writes to the terminal.
-/

namespace LineScript

/-- A limit on the number of lines executed in a run, the listing that is run, the state of the machine, and all calls
made so far. -/
structure Engine where
  limit : Option Nat := none
  listing : Listing := {}
  state : Machine.State := .initial
  transcript : Array Call := #[]
deriving Inhabited

/-- The state in which a run is left that ends with the line at this state: the line is counted, if there is one, and
the machine stays on it.  What the line did to the environment is left out, for a run that is over drops it. -/
def Machine.State.ended (s : State) (listing : Listing) : State :=
  if s.pc < listing.size then { s with steps := s.steps + 1 } else s

namespace Engine

/-- A new engine. -/
def new (limit : Option Nat) : Engine := { limit }

/-- The engine at the start of a run. -/
def started (listing : Listing) (engine : Engine) : Engine :=
  { engine with listing, state := .initial }

/-- The engine after a round. -/
def advanced (state : Machine.State) (calls : List Call) (engine : Engine) : Engine :=
  { engine with state, transcript := engine.transcript ++ calls }

/-- The engine without its listing and all that a run created. -/
def cleared (engine : Engine) : Engine :=
  { engine with listing := {}, state := { engine.state with env := .empty } }

/-- Rounds until the run is over, at most `fuel` of them. -/
def rounds : Nat → Engine → Option (Event × Engine)
  | 0, _ => none
  | fuel + 1, engine =>
    match Machine.turn engine.listing engine.limit engine.state with
    | .more state calls => rounds fuel (engine.advanced state calls)
    | .done event calls => some (event, engine.advanced (engine.state.ended engine.listing) calls)

/-- Runs a listing; `none` if the run has not ended after `fuel` rounds. -/
def runListing (fuel : Nat) (listing : Listing) (engine : Engine) : Option (Event × Engine) :=
  ((engine.started listing).rounds fuel).map fun (event, engine') => (event, engine'.cleared)

/-- Runs a script. -/
def runText (fuel : Nat) (source : String) (engine : Engine) : Option (Event × Engine) :=
  engine.runListing fuel (.ofText source)

/-- Leaves open blocks of the listing that the engine holds. -/
def leaveBlocks (levels : Nat) (closing : Bool) (engine : Engine) : Except Cause Move × Engine :=
  let reaction := Machine.leaveBlocks engine.listing engine.state.env levels closing
  (reaction.outcome, engine.advanced { engine.state with env := reaction.env } reaction.calls)

/-- Writes a text to the terminal. -/
def print (text : String) (engine : Engine) : Engine :=
  { engine with transcript := engine.transcript.push (.print text) }

/-- Ends a line of the terminal. -/
def newline (engine : Engine) : Engine :=
  { engine with transcript := engine.transcript.push .newline }

/-- All that was written to the terminal. -/
def output (engine : Engine) : String :=
  Call.texts engine.transcript.toList

/-- The rounds of an engine are those of the machine in its state. -/
theorem rounds_eq (fuel : Nat) (engine : Engine) :
    (engine.rounds fuel).map (fun (event, engine') => (event, engine'.transcript)) =
      Machine.runFrom engine.listing engine.limit fuel engine.state engine.transcript := by
  induction fuel generalizing engine with
  | zero => rfl
  | succ fuel ih =>
    rw [rounds, Machine.runFrom]
    cases Machine.turn engine.listing engine.limit engine.state with
    | more state calls => exact ih (engine.advanced state calls)
    | done event calls => rfl

/-- An engine runs a listing as the machine does, from the initial state, and writes behind what it has written. -/
theorem map_runListing (fuel : Nat) (listing : Listing) (engine : Engine) :
    (engine.runListing fuel listing).map (fun (event, engine') => (event, engine'.transcript)) =
      Machine.runFrom listing engine.limit fuel .initial engine.transcript := by
  rw [runListing, Option.map_map]
  exact rounds_eq fuel (engine.started listing)

end Engine

end LineScript
