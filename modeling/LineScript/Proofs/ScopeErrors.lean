import LineScript.Proofs.BlockStructure

/-!
# LineScript.Proofs.ScopeErrors — which listings fail for their blocks

A run meets only some of the lines of a listing, yet it finishes only if all of them are well bracketed.  In a well
bracketed listing the searches never fail, and what a closer, an `else` or a `break` does is decided by the blocks
around it.

* `Machine.balanced_of_ending`: a run that finishes has matched the whole listing.
* `Machine.endBlock_fails_iff`, `leaveElse_fails_iff`, `leaveBlocks_fails_iff`: when lines of a balanced listing fail.
* `Machine.nesting?_of_outOfMemory`: a full stack is as many openers around one line.
-/

namespace LineScript.Machine

variable {listing : Listing} {limit : Option Nat}

/-- Executing a line in a state fails. -/
def Fails (listing : Listing) (s : State) (line : Line) : Prop :=
  ∃ cause, (execute listing s.pc s.env (.ofLine line)).outcome = .error cause

/-- The line is a `break` or a `continue` that leaves `levels` blocks: one if it does not say, else what its symbol
stands for. -/
def Leaves (vars : Variables) (line : Line) (levels : Nat) : Prop :=
  (levels = 1 ∧ (line.tokens = ["break"] ∨ line.tokens = ["continue"])) ∨
  ∃ symbol, vars.levels symbol = .ok levels ∧
    (line.tokens = ["break", symbol] ∨ line.tokens = ["continue", symbol])

/-! ### Ends of runs -/

/-- A run finishes behind the last line with no block open, so nothing is left open there. -/
theorem balanced_of_ending {n : Nat} {s : State} {calls : List Call} (hs : stateAt listing limit n = some s)
    (h : Ending listing limit s .finished calls) : listing.Balanced := by
  obtain ⟨hpc, hn⟩ := nesting?_of_stateAt hs
  cases h with
  | finished hpc' hd =>
    have hsize : s.pc = listing.size := by omega
    have hnil : s.env.blocks.items = [] := by
      rw [Environment.depth_eq_length] at hd
      exact List.eq_nil_of_length_eq_zero hd
    rw [Listing.Balanced, ← hsize, hn, hnil]

/-- In a balanced listing every open block has its end. -/
theorem exists_closer_of_opener? {pc n i : Nat} {env : Environment} (hb : listing.Balanced)
    (hpc : pc ≤ listing.size) (hn : listing.nesting? pc = some env.blocks.items) (hi : env.opener? n = some i) :
    ∃ j, listing.closer? i = some j :=
  Listing.exists_closer hb (nesting?_split hn hi) hpc

theorem cause_ne_unterminatedScope {n : Nat} {s : State} {fault : Fault} {calls : List Call}
    (hb : listing.Balanced) (hs : stateAt listing limit n = some s)
    (h : Ending listing limit s (.failed fault) calls) : fault.cause ≠ .unterminatedScope := by
  obtain ⟨hpc, hn⟩ := nesting?_of_stateAt hs
  intro hc
  cases h with
  | unterminated hpc' hd =>
    rw [show s.pc = listing.size by omega, hb, Option.some.injEq] at hn
    rw [Environment.depth_eq_length, ← hn] at hd
    exact hd rfl
  | exhausted hline h =>
    obtain ⟨m, hm⟩ := exhausted?_eq_some h
    rw [hm] at hc
    cases hc
  | failed hline hlim h =>
    subst hc
    cases failure_of_execute hline h with
    | evaluation h => cases h
    | noEnd hr h =>
      obtain ⟨j, hj⟩ := Listing.exists_closer_of_opener hb hn hr
      obtain ⟨j', hj'⟩ := Listing.exists_elseOrCloser hb hn hr
      simp [hj, hj'] at h
    | noOuterEnd hi h =>
      obtain ⟨j, hj⟩ := exists_closer_of_opener? hb hpc hn hi
      simp [hj] at h

/-- A stack that is full when a block is to be opened: its lines are openers around one line. -/
theorem nesting?_of_outOfMemory {n : Nat} {s : State} {fault : Fault} {calls : List Call} {detail : String}
    (hs : stateAt listing limit n = some s) (h : Ending listing limit s (.failed fault) calls)
    (hc : fault.cause = .outOfMemory detail) :
    ∃ i blocks, i ≤ listing.size ∧ listing.nesting? i = some blocks ∧ Stack.limit < blocks.length := by
  obtain ⟨hpc, hn⟩ := nesting?_of_stateAt hs
  cases h with
  | unterminated hpc' hd => cases hc
  | exhausted hline h =>
    obtain ⟨m, hm⟩ := exhausted?_eq_some h
    rw [hm] at hc
    cases hc
  | failed hline hlim h =>
    subst hc
    cases failure_of_execute hline h with
    | evaluation h => cases h
    | tooDeep hr hd =>
      rw [Environment.depth_eq_length] at hd
      exact ⟨s.pc + 1, _, Listing.lt_size_of_line? hline, Listing.nesting?_opener hn hr, Nat.lt_succ_of_le hd⟩

/-! ### Lines of balanced listings -/

section Lines

variable {pc : Nat} {env : Environment}

theorem closeBlock_of_balanced (hb : listing.Balanced) (hn : listing.nesting? pc = some env.blocks.items)
    (hr : listing.role pc = .closer) :
    ∃ i env', env.closeBlock = .ok (i, env') ∧ listing.role i = .opener := by
  obtain ⟨i, outer, hitems⟩ := Listing.exists_cons_of_closer hb hn hr
  obtain ⟨env', hc, -⟩ := Environment.exists_closeBlock hitems
  exact ⟨i, env', hc, (nesting?_of_opener? hn (Environment.opener?_of_closeBlock hc)).2.1⟩

theorem endBlock_fails_iff (hb : listing.Balanced) (hn : listing.nesting? pc = some env.blocks.items)
    (hr : listing.role pc = .closer) :
    (∃ cause, (endBlock listing env).outcome = .error cause) ↔
      (env.opener? 0).bind listing.keyword? = some .push := by
  obtain ⟨i, env', hc, hri⟩ := closeBlock_of_balanced hb hn hr
  have hi := Environment.opener?_of_closeBlock hc
  rcases Listing.role_eq_opener_iff.mp hri with hk | hk | hk
  · simp [endBlock, hi, hk]
  · simp [endBlock_of_if hk hc, hi, hk]
  · simp [endBlock_of_while hk hc, hi, hk]

theorem leaveElse_fails_iff (hb : listing.Balanced) (hpc : pc ≤ listing.size)
    (hn : listing.nesting? pc = some env.blocks.items) :
    (∃ cause, (leaveElse listing env).outcome = .error cause) ↔
      (env.opener? 0).bind listing.keyword? ≠ some .if_ := by
  cases hi : env.opener? 0 with
  | none => simp [leaveElse, hi]
  | some i =>
    by_cases hk : listing.keyword? i = some .if_
    · obtain ⟨j, hj⟩ := exists_closer_of_opener? hb hpc hn hi
      simp [leaveElse_of_if hi hk hj, hk]
    · simp [leaveElse, hi, hk]

theorem leaveBlocks_fails_iff {levels : Nat} {closing : Bool} (hb : listing.Balanced) (hpc : pc ≤ listing.size)
    (hn : listing.nesting? pc = some env.blocks.items) (hl : 1 ≤ levels) :
    (∃ cause, (leaveBlocks listing env levels closing).outcome = .error cause) ↔ env.depth < levels := by
  by_cases hd : env.depth < levels
  · simp [leaveBlocks_of_depth_lt hd, hd]
  · obtain ⟨level, rfl⟩ : ∃ level, levels = level + 1 := ⟨levels - 1, by omega⟩
    have hlt : level < env.depth := by omega
    obtain ⟨i, j, env', -, -, -, he⟩ := exists_leaveBlocks closing hlt
      fun i hi => exists_closer_of_opener? hb hpc hn hi
    simp [he, hd]

end Lines

/-! ### Whole runs -/

theorem exists_ending_of_runListing {fuel : Nat} {engine engine' : Engine} {event : Event}
    (h : engine.runListing fuel listing = some (event, engine')) :
    ∃ n s calls, stateAt listing engine.limit n = some s ∧ Ending listing engine.limit s event calls := by
  have hrun := Engine.map_runListing fuel listing engine
  rw [h, Option.map_some] at hrun
  exact exists_ending_of_runFrom (show stateAt listing _ 0 = some .initial from rfl) hrun.symm

/-- In a balanced listing a `break` or `continue` fails just when it is to leave more blocks than enclose it. -/
theorem fails_iff_of_leaves {n levels : Nat} {s : State} {line : Line} (hb : listing.Balanced)
    (hs : stateAt listing limit n = some s) (hl : Leaves s.env.vars line levels) :
    Fails listing s line ↔ s.env.depth < levels := by
  obtain ⟨hpc, hn⟩ := nesting?_of_stateAt hs
  obtain ⟨tokens⟩ := line
  rcases hl with ⟨rfl, rfl | rfl⟩ | ⟨symbol, hsym, rfl | rfl⟩
  · exact leaveBlocks_fails_iff hb hpc hn le_rfl
  · exact leaveBlocks_fails_iff hb hpc hn le_rfl
  · have hst : Statement.ofLine ⟨["break", symbol]⟩ = .break_ (some symbol) := rfl
    rw [Fails, hst, execute, leaveNamed, hsym]
    exact leaveBlocks_fails_iff hb hpc hn (s.env.vars.one_le_of_levels hsym)
  · have hst : Statement.ofLine ⟨["continue", symbol]⟩ = .continue_ (some symbol) := rfl
    rw [Fails, hst, execute, leaveNamed, hsym]
    exact leaveBlocks_fails_iff hb hpc hn (s.env.vars.one_le_of_levels hsym)

/-- **Well bracketed listings.**  A run finishes only on a balanced listing.  No run of a balanced listing fails
because a block has no end, or runs out of memory with at most 65535 openers around every line; and whether a closer,
an `else`, a `break` or a `continue` fails is decided by the blocks that enclose its line. -/
theorem scope_errors_of_balanced (listing : Listing) :
    (∀ fuel engine engine', Engine.runListing fuel listing engine = some (.finished, engine') →
      listing.Balanced) ∧
    (listing.Balanced →
      (∀ fuel engine engine' fault, Engine.runListing fuel listing engine = some (.failed fault, engine') →
        fault.cause ≠ .unterminatedScope ∧
        ∀ detail, fault.cause = .outOfMemory detail →
          ∃ i blocks, i ≤ listing.size ∧ listing.nesting? i = some blocks ∧ 65535 < blocks.length) ∧
      ∀ limit n s line blocks, stateAt listing limit n = some s → listing.line? s.pc = some line →
        listing.nesting? s.pc = some blocks →
        (line.tokens = ["pop"] → ¬ Fails listing s line) ∧
        (line.tokens = ["end"] → (Fails listing s line ↔ blocks.head?.bind listing.keyword? = some .push)) ∧
        (line.tokens = ["else"] → (Fails listing s line ↔ blocks.head?.bind listing.keyword? ≠ some .if_)) ∧
        ∀ levels, Leaves s.env.vars line levels → (Fails listing s line ↔ blocks.length < levels)) := by
  refine ⟨fun fuel engine engine' h => ?_, fun hb => ⟨fun fuel engine engine' fault h => ?_, ?_⟩⟩
  · obtain ⟨n, s, calls, hs, hend⟩ := exists_ending_of_runListing h
    exact balanced_of_ending hs hend
  · obtain ⟨n, s, calls, hs, hend⟩ := exists_ending_of_runListing h
    exact ⟨cause_ne_unterminatedScope hb hs hend, fun detail hc => nesting?_of_outOfMemory hs hend hc⟩
  · intro limit n s line blocks hs hline hblocks
    obtain ⟨hpc, hn⟩ := nesting?_of_stateAt hs
    have hrole := Listing.role_of_line? hline
    obtain rfl : s.env.blocks.items = blocks := by rw [hn, Option.some.injEq] at hblocks; exact hblocks
    rw [List.head?_eq_getElem?, ← Environment.depth_eq_length]
    obtain ⟨tokens⟩ := line
    refine ⟨?_, ?_, ?_, fun levels hl => fails_iff_of_leaves hb hs hl⟩
    · rintro rfl ⟨cause, h⟩
      obtain ⟨i, env', hc, -⟩ := closeBlock_of_balanced hb hn hrole
      simp [show Statement.ofLine ⟨["pop"]⟩ = .pop from rfl, execute, hc] at h
    · rintro rfl
      exact endBlock_fails_iff hb hn hrole
    · rintro rfl
      exact leaveElse_fails_iff hb hpc hn

/-- A balanced listing whose `break` leaves one block too many, and whose last line closes a `push` with an `end`. -/
def breakTooFar : Listing :=
  ⟨#[⟨["push"]⟩, ⟨["if", "true"]⟩, ⟨["break", "3"]⟩, ⟨["else"]⟩, ⟨["end"]⟩, ⟨["end"]⟩]⟩

theorem scope_errors_of_balanced_breakTooFar :
    breakTooFar.Balanced ∧
      ∃ s, stateAt breakTooFar none 2 = some s ∧ Leaves s.env.vars ⟨["break", "3"]⟩ 3 ∧
        breakTooFar.nesting? s.pc = some [1, 0] ∧ Fails breakTooFar s ⟨["break", "3"]⟩ := by
  have hb : breakTooFar.Balanced := by decide
  refine ⟨hb, _, rfl, Or.inr ⟨"3", rfl, Or.inl rfl⟩, rfl, ?_⟩
  have hlines := ((scope_errors_of_balanced breakTooFar).2 hb).2 none 2 _ ⟨["break", "3"]⟩ [1, 0] rfl rfl rfl
  exact (hlines.2.2.2 3 (Or.inr ⟨"3", rfl, Or.inl rfl⟩)).mpr (by decide)

end LineScript.Machine
