import LineScript.Engine

/-!
# LineScript.Proofs.Isolation — many runs at one terminal do not meet

A terminal is given by what a call does to its state; it may lose what it is given, and nothing is read back from it.
A desk is an engine that makes its calls at such a terminal as it goes.  Whatever was asked of a desk before, and
whatever its terminal holds, the next request is served as by a new engine.  The position and the number of lines at
which the last run ended stay, and nothing depends on them.

* `Desk.rounds`: rounds at a terminal.  `Engine.serve_deskAt`: a desk serves as an engine does, and its terminal receives
  the calls that the engine makes.
* `Engine.desk_serve`: an engine is a desk at a terminal that records its calls.
* `Desk.serve_of_rewound`: one request to a desk of which only position and number of lines are not new.
* `Desk.serveAll_of_rewound`: a whole history of requests is answered request by request as by new engines.
* `Desk.requests_isolated`: no request sees the ones before it, or the terminal.
-/

namespace LineScript

/-! ### Terminals -/

/-- A terminal with states `σ`: what it does with a printed text and with a report. -/
structure Terminal (σ : Type) where
  print : σ → String → σ
  error : σ → String → σ

namespace Terminal

variable {σ : Type}

/-- The state after one call. -/
def receive (t : Terminal σ) (x : σ) : Call → σ
  | .print s => t.print x s
  | .error s => t.error x s

/-- The state after some calls. -/
def receiveAll (t : Terminal σ) (x : σ) (calls : List Call) : σ :=
  calls.foldl t.receive x

/-- A terminal that records its calls. -/
def recorder : Terminal (Array Call) :=
  ⟨fun made s => made.push (.print s), fun made s => made.push (.error s)⟩

/-- A terminal that is a text; all calls go to its end. -/
def text : Terminal String :=
  ⟨fun x s => x ++ s, fun x s => x ++ s⟩

/-- What an output device has taken, and whether it has refused a text. -/
structure Device where
  written : String := ""
  failed : Bool := false
deriving DecidableEq, Repr, Inhabited

/-- A text goes to a device if the device accepts it behind what it has taken.  After one refusal nothing goes to it any
more. -/
def Device.write (accepts : String → String → Bool) (d : Device) (s : String) : Device :=
  if d.failed then d else if accepts d.written s then ⟨d.written ++ s, false⟩ else ⟨d.written, true⟩

/-- A terminal whose writes may fail. -/
def device (accepts : String → String → Bool) : Terminal Device :=
  ⟨Device.write accepts, Device.write accepts⟩

variable {t : Terminal σ}

@[simp] theorem receiveAll_nil (x : σ) : t.receiveAll x [] = x := rfl

@[simp] theorem receiveAll_append (x : σ) (first second : List Call) :
    t.receiveAll x (first ++ second) = t.receiveAll (t.receiveAll x first) second :=
  List.foldl_append

@[simp] theorem receiveAll_recorder (made : Array Call) (calls : List Call) :
    recorder.receiveAll made calls = made ++ calls := by
  induction calls generalizing made with
  | nil => simp
  | cons call calls ih =>
    have hpush : recorder.receive made call = made.push call := by cases call <;> rfl
    rw [receiveAll, List.foldl_cons, hpush, ← receiveAll, ih]
    simp

@[simp] theorem receiveAll_text (x : String) (calls : List Call) :
    text.receiveAll x calls = x ++ Call.texts calls := by
  induction calls generalizing x with
  | nil => simp [Call.texts]
  | cons call calls ih =>
    have happ : text.receive x call = x ++ call.text := by cases call <;> rfl
    rw [receiveAll, List.foldl_cons, happ, ← receiveAll, ih]
    simp [Call.texts, String.append_assoc]

end Terminal

/-- Without an open block there is none to leave. -/
theorem Machine.leaveBlocks_empty (listing : Listing) (levels : Nat) (closing : Bool) :
    leaveBlocks listing .empty levels closing = ⟨.empty, [], .error .unexpectedEndOfScope⟩ := by
  have hlevels : levels = 0 ∨ Environment.empty.depth < levels := Nat.eq_zero_or_pos levels
  rw [leaveBlocks, if_pos hlevels]

/-! ### Requests -/

/-- What an engine can be asked for. -/
inductive Request
  | runText (source : String)
  | runListing (listing : Listing)
  | leaveBlocks (levels : Nat) (closing : Bool)
  | print (text : String)
  | newline
deriving DecidableEq, Repr, Inhabited

/-- What is answered: how a run ended, or what came of leaving blocks. -/
inductive Answer
  | ended (event : Event)
  | left (outcome : Except Cause Move)
  | written

namespace Engine

/-- Serves a request; `none` if it is a run that has not ended after `fuel` rounds. -/
def serve (fuel : Nat) (engine : Engine) : Request → Option (Answer × Engine)
  | .runText source => (engine.runText fuel source).map fun (event, engine') => (.ended event, engine')
  | .runListing listing => (engine.runListing fuel listing).map fun (event, engine') => (.ended event, engine')
  | .leaveBlocks levels closing =>
    let (outcome, engine') := engine.leaveBlocks levels closing
    some (.left outcome, engine')
  | .print text => some (.written, engine.print text)
  | .newline => some (.written, engine.newline)

end Engine

/-- An engine at a terminal with states `σ`, which keeps no calls of its own. -/
structure Desk (σ : Type) where
  limit : Option Nat
  listing : Listing := {}
  state : Machine.State := .initial
  screen : σ

namespace Desk

variable {σ : Type}

/-- A desk that has not been used, at a terminal in any state. -/
def new (limit : Option Nat) (screen : σ) : Desk σ := { limit, screen }

/-- The desk at the start of a run. -/
def started (listing : Listing) (desk : Desk σ) : Desk σ :=
  { desk with listing, state := .initial }

/-- The desk after a round, which makes its calls at the terminal. -/
def advanced (t : Terminal σ) (state : Machine.State) (calls : List Call) (desk : Desk σ) : Desk σ :=
  { desk with state, screen := t.receiveAll desk.screen calls }

/-- The desk without its listing and all that a run created. -/
def cleared (desk : Desk σ) : Desk σ :=
  { desk with listing := {}, state := { desk.state with env := .empty } }

/-- Rounds until the run is over, at most `fuel` of them. -/
def rounds (t : Terminal σ) : Nat → Desk σ → Option (Event × Desk σ)
  | 0, _ => none
  | fuel + 1, desk =>
    match Machine.turn desk.listing desk.limit desk.state with
    | .more state calls => rounds t fuel (desk.advanced t state calls)
    | .done event calls => some (event, desk.advanced t (desk.state.ended desk.listing) calls)

/-- Runs a listing; `none` if the run has not ended after `fuel` rounds. -/
def runListing (t : Terminal σ) (fuel : Nat) (listing : Listing) (desk : Desk σ) : Option (Event × Desk σ) :=
  ((desk.started listing).rounds t fuel).map fun (event, desk') => (event, desk'.cleared)

/-- Runs a script. -/
def runText (t : Terminal σ) (fuel : Nat) (source : String) (desk : Desk σ) : Option (Event × Desk σ) :=
  desk.runListing t fuel (.ofText source)

/-- Leaves open blocks of the listing that the desk holds. -/
def leaveBlocks (t : Terminal σ) (levels : Nat) (closing : Bool) (desk : Desk σ) : Except Cause Move × Desk σ :=
  let reaction := Machine.leaveBlocks desk.listing desk.state.env levels closing
  (reaction.outcome, desk.advanced t { desk.state with env := reaction.env } reaction.calls)

/-- Writes a text to the terminal. -/
def print (t : Terminal σ) (text : String) (desk : Desk σ) : Desk σ :=
  { desk with screen := t.receive desk.screen (.print text) }

/-- Ends a line of the terminal. -/
def newline (t : Terminal σ) (desk : Desk σ) : Desk σ :=
  { desk with screen := t.receive desk.screen .newline }

/-- Serves a request; `none` if it is a run that has not ended after `fuel` rounds. -/
def serve (t : Terminal σ) (fuel : Nat) (desk : Desk σ) : Request → Option (Answer × Desk σ)
  | .runText source => (desk.runText t fuel source).map fun (event, desk') => (.ended event, desk')
  | .runListing listing => (desk.runListing t fuel listing).map fun (event, desk') => (.ended event, desk')
  | .leaveBlocks levels closing =>
    let (outcome, desk') := desk.leaveBlocks t levels closing
    some (.left outcome, desk')
  | .print text => some (.written, desk.print t text)
  | .newline => some (.written, desk.newline t)

/-- Serves requests one after the other. -/
def serveAll (t : Terminal σ) (fuel : Nat) : List Request → Desk σ → Option (List Answer × Desk σ)
  | [], desk => some ([], desk)
  | request :: requests, desk => do
    let (answer, desk') ← desk.serve t fuel request
    let (answers, desk'') ← serveAll t fuel requests desk'
    return (answer :: answers, desk'')

/-- Nothing is left of any run: no live variable, no open block, no line. -/
structure Idle (desk : Desk σ) : Prop where
  no_variable : desk.state.env.vars.isEmpty = true
  no_block : desk.state.env.depth = 0
  no_line : desk.listing.isEmpty = true

/-- The desk with its position and its number of lines set back. -/
def rewound (desk : Desk σ) : Desk σ :=
  { desk with state := { env := desk.state.env } }

end Desk

/-! ### Engines at a terminal -/

namespace Engine

variable {σ : Type} {t : Terminal σ}

/-- The desk at which an engine records its calls. -/
def desk (engine : Engine) : Desk (Array Call) :=
  ⟨engine.limit, engine.listing, engine.state, engine.transcript⟩

/-- The desk of an engine at a terminal that was in state `x` and has received the calls of the engine since. -/
def deskAt (t : Terminal σ) (x : σ) (engine : Engine) : Desk σ :=
  ⟨engine.limit, engine.listing, engine.state, t.receiveAll x engine.transcript.toList⟩

theorem deskAt_recorder (engine : Engine) : engine.deskAt .recorder #[] = engine.desk := by
  simp [deskAt, desk]

theorem advanced_deskAt (x : σ) (state : Machine.State) (calls : List Call) (engine : Engine) :
    (engine.deskAt t x).advanced t state calls = (engine.advanced state calls).deskAt t x := by
  simp [deskAt, advanced, Desk.advanced]

theorem rounds_deskAt (fuel : Nat) (x : σ) (engine : Engine) :
    (engine.deskAt t x).rounds t fuel =
      (engine.rounds fuel).map fun (event, engine') => (event, engine'.deskAt t x) := by
  induction fuel generalizing engine with
  | zero => rfl
  | succ fuel ih =>
    rw [Desk.rounds, rounds]
    simp only [advanced_deskAt]
    -- desk and engine are in the same state, so they take the same round
    show (match Machine.turn engine.listing engine.limit engine.state with
      | .more _ _ => _
      | .done _ _ => _) = _
    cases Machine.turn engine.listing engine.limit engine.state with
    | more state calls => exact ih (engine.advanced state calls)
    | done event calls => rfl

theorem runListing_deskAt (fuel : Nat) (listing : Listing) (x : σ) (engine : Engine) :
    (engine.deskAt t x).runListing t fuel listing =
      (engine.runListing fuel listing).map fun (event, engine') => (event, engine'.deskAt t x) := by
  have hrounds := rounds_deskAt (t := t) fuel x (engine.started listing)
  rw [Desk.runListing, runListing, Option.map_map]
  refine (congrArg (Option.map _) hrounds).trans ?_
  rw [Option.map_map]
  rfl

/-- A desk serves as an engine does, and its terminal receives the calls that the engine makes. -/
theorem serve_deskAt (fuel : Nat) (x : σ) (engine : Engine) (request : Request) :
    (engine.deskAt t x).serve t fuel request =
      (engine.serve fuel request).map fun (answer, engine') => (answer, engine'.deskAt t x) := by
  cases request with
  | runText | runListing =>
    simp only [Desk.serve, serve, Desk.runText, runText, runListing_deskAt, Option.map_map]
    rfl
  | leaveBlocks levels closing =>
    simp only [Desk.serve, serve, Desk.leaveBlocks, leaveBlocks, advanced_deskAt, Option.map_some]
    rfl
  | print | newline =>
    simp [Desk.serve, serve, Desk.print, print, Desk.newline, newline, deskAt, Terminal.receiveAll]

/-- An engine is a desk at a terminal that records its calls. -/
theorem desk_serve (fuel : Nat) (engine : Engine) (request : Request) :
    engine.desk.serve .recorder fuel request =
      (engine.serve fuel request).map fun (answer, engine') => (answer, engine'.desk) := by
  simpa only [deskAt_recorder] using serve_deskAt (t := .recorder) fuel #[] engine request

theorem limit_of_rounds {fuel : Nat} {engine engine' : Engine} {event : Event}
    (h : engine.rounds fuel = some (event, engine')) : engine'.limit = engine.limit := by
  induction fuel generalizing engine with
  | zero => cases h
  | succ fuel ih =>
    rw [rounds] at h
    split at h
    · have hlimit := ih h
      exact hlimit
    · cases h
      rfl

/-- A run leaves no line and nothing that it created. -/
theorem of_runListing {fuel : Nat} {listing : Listing} {engine engine' : Engine} {event : Event}
    (h : engine.runListing fuel listing = some (event, engine')) :
    engine'.limit = engine.limit ∧ engine'.listing = {} ∧ engine'.state.env = .empty := by
  obtain ⟨⟨_, last⟩, hrounds, heq⟩ := Option.map_eq_some_iff.mp h
  have hlimit := limit_of_rounds hrounds
  cases heq
  exact ⟨hlimit, rfl, rfl⟩

end Engine

namespace Desk

variable {σ : Type} {t : Terminal σ} {limit : Option Nat} {desk : Desk σ} {x : σ}

/-! ### One request -/

theorem idle_of_rewound (h : desk.rewound = new limit x) : desk.Idle := by
  have henv : desk.state.env = .empty := congrArg (fun d => d.state.env) h
  have hlisting : desk.listing = {} := congrArg Desk.listing h
  constructor
  · rw [henv]
    rfl
  · rw [henv]
    rfl
  · rw [hlisting]
    rfl

theorem leaveBlocks_of_rewound (h : desk.rewound = new limit x) (levels : Nat) (closing : Bool) :
    desk.leaveBlocks t levels closing = (.error .unexpectedEndOfScope, desk) := by
  have henv : desk.state.env = .empty := congrArg (fun d => d.state.env) h
  simp only [leaveBlocks, henv, Machine.leaveBlocks_empty, advanced, Terminal.receiveAll_nil]
  rw [← henv]

/-- A run starts afresh, so that it goes as at a new engine, with its calls made at the terminal. -/
theorem runListing_of_rewound (h : desk.rewound = new limit x) (fuel : Nat) (listing : Listing) :
    (desk.runListing t fuel listing).map (fun (event, desk') => (event, desk'.rewound)) =
      ((Engine.new limit).runListing fuel listing).map fun (event, fresh) =>
        (event, new limit (t.receiveAll x fresh.transcript.toList)) := by
  have hlimit : desk.limit = limit := congrArg Desk.limit h
  have hscreen : desk.screen = x := congrArg Desk.screen h
  have hstarted : desk.runListing t fuel listing = ((Engine.new limit).deskAt t x).runListing t fuel listing := by
    rw [← hlimit, ← hscreen]
    rfl
  rw [hstarted, Engine.runListing_deskAt, Option.map_map]
  refine Option.map_congr fun reply hreply => ?_
  obtain ⟨event, fresh⟩ := reply
  obtain ⟨hl, hlisting, henv⟩ := Engine.of_runListing hreply
  have hnew : (fresh.deskAt t x).rewound = new limit (t.receiveAll x fresh.transcript.toList) := by
    simp only [rewound, Engine.deskAt, hl, hlisting, henv]
    rfl
  exact congrArg (Prod.mk event) hnew

theorem rewound_receive (h : desk.rewound = new limit x) (call : Call) :
    ({ desk with screen := t.receive desk.screen call } : Desk σ).rewound = new limit (t.receive x call) := by
  have hscreen : desk.screen = x := congrArg Desk.screen h
  show ({ desk.rewound with screen := t.receive desk.screen call } : Desk σ) = _
  rw [h, hscreen]
  rfl

/-- A request to a desk of which only position and number of lines are not new is answered as by a new engine, makes the
same calls, and leaves such a desk. -/
theorem serve_of_rewound (h : desk.rewound = new limit x) (fuel : Nat) (request : Request) :
    (desk.serve t fuel request).map (fun (answer, desk') => (answer, desk'.rewound)) =
      ((Engine.new limit).serve fuel request).map fun (answer, fresh) =>
        (answer, new limit (t.receiveAll x fresh.transcript.toList)) := by
  have hrun (listing : Listing) :
      (desk.serve t fuel (.runListing listing)).map (fun (answer, desk') => (answer, desk'.rewound)) =
        ((Engine.new limit).serve fuel (.runListing listing)).map fun (answer, fresh) =>
          (answer, new limit (t.receiveAll x fresh.transcript.toList)) := by
    have hanswer := congrArg (Option.map fun (event, desk') => (Answer.ended event, desk'))
      (runListing_of_rewound (t := t) h fuel listing)
    rw [Option.map_map, Option.map_map] at hanswer
    rw [serve, Engine.serve, Option.map_map, Option.map_map]
    exact hanswer
  cases request with
  | runText source => exact hrun (.ofText source)
  | runListing listing => exact hrun listing
  | leaveBlocks levels closing =>
    simp only [serve, leaveBlocks_of_rewound h, Option.map_some, h, Engine.serve, Engine.leaveBlocks, Engine.new,
      Machine.State.initial, Machine.leaveBlocks_empty]
    rfl
  | print text => exact congrArg (fun d => some (Answer.written, d)) (rewound_receive h (.print text))
  | newline => exact congrArg (fun d => some (Answer.written, d)) (rewound_receive h .newline)

/-! ### Many requests -/

theorem exists_of_map_rewound {α : Type} {reply? : Option (α × Desk σ)} {answer : α} {last : Desk σ}
    (h : reply?.map (fun (answer, desk') => (answer, desk'.rewound)) = some (answer, last)) :
    ∃ desk', reply? = some (answer, desk') ∧ desk'.rewound = last := by
  obtain ⟨⟨answer', desk'⟩, hreply, heq⟩ := Option.map_eq_some_iff.mp h
  cases heq
  exact ⟨desk', hreply, rfl⟩

/-- A history of requests is answered request by request as by new engines, and all their calls reach the terminal. -/
theorem serveAll_of_rewound (h : desk.rewound = new limit x) (fuel : Nat) (history : List Request) :
    (serveAll t fuel history desk).map (fun (answers, desk') => (answers, desk'.rewound)) =
      (history.mapM ((Engine.new limit).serve fuel)).map fun replies =>
        (replies.map Prod.fst,
          new limit (t.receiveAll x (replies.flatMap fun (_, fresh) => fresh.transcript.toList))) := by
  induction history generalizing desk x with
  | nil => exact congrArg (fun d => some ([], d)) h
  | cons request history ih =>
    have hserve := serve_of_rewound (t := t) h fuel request
    rw [serveAll, List.mapM_cons]
    cases hreply : (Engine.new limit).serve fuel request with
    | none =>
      rw [hreply, Option.map_none, Option.map_eq_none_iff] at hserve
      rw [hserve]
      rfl
    | some reply =>
      obtain ⟨answer, fresh⟩ := reply
      rw [hreply, Option.map_some] at hserve
      obtain ⟨desk', hserved, hdesk'⟩ := exists_of_map_rewound hserve
      have hrest := ih hdesk'
      rw [hserved]
      simp only [Option.bind_eq_bind, Option.bind_some]
      cases hreplies : history.mapM ((Engine.new limit).serve fuel) with
      | none =>
        rw [hreplies, Option.map_none, Option.map_eq_none_iff] at hrest
        rw [hrest]
        rfl
      | some replies =>
        rw [hreplies, Option.map_some] at hrest
        obtain ⟨desk'', hserved', hdesk''⟩ := exists_of_map_rewound hrest
        rw [hserved']
        simp [hdesk'']

/-- After any history a desk is as new, but for what its terminal holds, and for the place where the last run ended. -/
theorem rewound_of_serveAll {fuel : Nat} {history : List Request} {answers : List Answer}
    (h : serveAll t fuel history (new limit x) = some (answers, desk)) : desk.rewound = new limit desk.screen := by
  have hnew : (new limit x).rewound = new limit x := rfl
  have hall := serveAll_of_rewound (t := t) hnew fuel history
  rw [h, Option.map_some] at hall
  obtain ⟨replies, -, heq⟩ := Option.map_eq_some_iff.mp hall.symm
  simp only [Prod.mk.injEq] at heq
  have hscreen : desk.screen = _ := (congrArg Desk.screen heq.2).symm
  rw [hscreen]
  exact heq.2.symm

/-- **No request sees the ones before it, or the terminal.**  An engine is a desk that records its calls.  A history of
requests at a terminal of any kind and in any state gets the answers that new engines give to each of its requests, and
the terminal receives the calls that these engines make.  After it nothing is left of any run but the place where the
last one ended, leaving blocks fails and changes nothing, and every further request, also a run that does not end, goes
as at a new engine.  A terminal that is a text gets the output of the new engine at its end. -/
theorem requests_isolated (limit : Option Nat) (fuel : Nat) (history : List Request) :
    (∀ engine request,
      engine.desk.serve .recorder fuel request =
        (Engine.serve fuel engine request).map fun (answer, engine') => (answer, engine'.desk)) ∧
    (∀ {σ : Type} (t : Terminal σ) (x : σ),
      (serveAll t fuel history (new limit x)).map (fun (answers, desk) => (answers, desk.rewound)) =
        (history.mapM ((Engine.new limit).serve fuel)).map fun replies =>
          (replies.map Prod.fst,
            new limit (t.receiveAll x (replies.flatMap fun (_, fresh) => fresh.transcript.toList)))) ∧
    (∀ {σ : Type} (t : Terminal σ) (x : σ) (answers : List Answer) (desk : Desk σ),
      serveAll t fuel history (new limit x) = some (answers, desk) →
      desk.Idle ∧
      (∀ levels closing, desk.leaveBlocks t levels closing = (.error .unexpectedEndOfScope, desk)) ∧
      ∀ fuel' request,
        (desk.serve t fuel' request).map (fun (answer, desk') => (answer, desk'.rewound)) =
          ((Engine.new limit).serve fuel' request).map fun (answer, fresh) =>
            (answer, { desk.rewound with screen := t.receiveAll desk.screen fresh.transcript.toList })) ∧
    ∀ (x : String) (answers : List Answer) (desk : Desk String),
      serveAll .text fuel history (new limit x) = some (answers, desk) →
      ∀ fuel' request answer fresh, (Engine.new limit).serve fuel' request = some (answer, fresh) →
        ∃ desk', desk.serve .text fuel' request = some (answer, desk') ∧
          desk'.rewound = { desk.rewound with screen := desk.screen ++ fresh.output } := by
  refine ⟨Engine.desk_serve fuel, fun t x => serveAll_of_rewound rfl fuel history, ?_, ?_⟩
  · intro σ t x answers desk h
    have hnew := rewound_of_serveAll h
    refine ⟨idle_of_rewound hnew, leaveBlocks_of_rewound hnew, fun fuel' request => ?_⟩
    rw [hnew]
    exact serve_of_rewound hnew fuel' request
  · intro x answers desk h fuel' request answer fresh hfresh
    have hnew := rewound_of_serveAll h
    have hserve := serve_of_rewound (t := .text) hnew fuel' request
    rw [hfresh, Option.map_some] at hserve
    obtain ⟨desk', hserved, hdesk'⟩ := exists_of_map_rewound hserve
    rw [Terminal.receiveAll_text] at hdesk'
    exact ⟨desk', hserved, by rw [hdesk', hnew]; rfl⟩

/-- Requests that leave much behind: a run that fails in nested blocks, an attempt to leave a block, a text, and a run
that exits with an open block. -/
def untidyRequests : List Request :=
  [.runListing ⟨#[⟨["integer", "n"]⟩, ⟨["while", "true"]⟩, ⟨["print", "n"]⟩, ⟨["if", "true"]⟩, ⟨["print", "x"]⟩]⟩,
    .leaveBlocks 1 true, .print "...", .newline,
    .runListing ⟨#[⟨["push"]⟩, ⟨["integer", "n"]⟩, ⟨["exit"]⟩, ⟨["pop"]⟩]⟩]

/-- A device that refuses the second text given to it. -/
def fullDevice : Terminal Terminal.Device :=
  .device fun written _ => written.isEmpty

theorem requests_isolated_untidyRequests :
    ∃ answers desk,
      serveAll fullDevice 10 untidyRequests (new none {}) = some (answers, desk) ∧
      desk.screen = ⟨"0", true⟩ ∧ desk.Idle ∧ (desk.state.pc, desk.state.steps) = (2, 3) ∧
      (desk.leaveBlocks fullDevice 3 false).2.screen = ⟨"0", true⟩ ∧
      (desk.serve fullDevice 10 (.runListing ⟨#[⟨["integer", "n"]⟩, ⟨["print", "n"]⟩]⟩)).map
          (fun (answer, desk') => (answer, desk'.rewound)) =
        some (.ended .finished, new none ⟨"0", true⟩) := by
  obtain ⟨-, -, hafter, -⟩ := requests_isolated none 10 untidyRequests
  have hserve : serveAll fullDevice 10 untidyRequests (new none {}) =
      some ([.ended (.failed ⟨.undeclared "x", some 4⟩), .left (.error .unexpectedEndOfScope), .written, .written,
        .ended .exited], ⟨none, {}, ⟨2, 3, .empty⟩, ⟨"0", true⟩⟩) := rfl
  obtain ⟨hidle, hleave, hnext⟩ := hafter fullDevice {} _ _ hserve
  refine ⟨_, _, hserve, rfl, hidle, rfl, ?_, ?_⟩
  · rw [hleave]
  · rw [hnext]
    rfl

end Desk

end LineScript
