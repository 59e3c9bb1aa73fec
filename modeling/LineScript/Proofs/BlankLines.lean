import LineScript.Proofs.Renumbering

/-!
# LineScript.Proofs.BlankLines — blank lines are inert

A blank line may be inserted anywhere.  Every line below it gets another number, and a jump may land on the blank line
instead of the line that was there; the machine then goes over it and is back in step.

* `shift k`, `Listing.insertLine k`: the new line, and the new numbers of the others.
* `Listing.sameBlocks_insertLine`: a blank line does not disturb the searches.
* `Machine.Follows`: the run of the new listing is in step with that of the old one.
* `Machine.exists_follows`: at every state of the old run the new one gets in step.
* `Machine.blank_line_inert`: the two runs end in the same way, or both go on forever.
-/

namespace LineScript

/-- The number that line `i` gets when a line is inserted at `k`. -/
def shift (k i : Nat) : Nat :=
  if i < k then i else i + 1

theorem shift_of_lt {k i : Nat} (h : i < k) : shift k i = i := if_pos h

theorem shift_of_le {k i : Nat} (h : k ≤ i) : shift k i = i + 1 := if_neg (Nat.not_lt.mpr h)

/-- The machine is on the line that stands for its position, or on the inserted line in front of it. -/
theorem eq_of_lands_shift {k p p' : Nat} (h : Lands (shift k) p p') : p' = shift k p ∨ (p = k ∧ p' = k) := by
  cases h with
  | onto => exact Or.inl rfl
  | behind i =>
    rcases Nat.lt_trichotomy (i + 1) k with hlt | heq | hgt
    · rw [shift_of_lt hlt, shift_of_lt (by omega)]
      exact Or.inl rfl
    · rw [shift_of_lt (by omega)]
      exact Or.inr ⟨heq, heq⟩
    · rw [shift_of_le (by omega), shift_of_le (by omega)]
      exact Or.inl rfl

theorem Line.role_of_isBlank {line : Line} (h : line.isBlank = true) : line.role = .plain := by
  rw [role, keyword?_of_isBlank h]

/-! ### Listings with one more line -/

namespace Listing

/-- The listing with one more line, which gets the number `k`. -/
def insertLine (listing : Listing) (k : Nat) (line : Line) : Listing :=
  ⟨(listing.lines.toList.insertIdx k line).toArray⟩

variable {listing : Listing} {k : Nat} {line : Line}

theorem line?_insertLine (listing : Listing) (k : Nat) (line : Line) (i : Nat) :
    (listing.insertLine k line).line? (shift k i) = listing.line? i := by
  rw [line?, insertLine, List.getElem?_toArray, line?, ← Array.getElem?_toList]
  rcases Nat.lt_or_ge i k with hlt | hge
  · rw [shift_of_lt hlt, List.getElem?_insertIdx_of_lt hlt]
  · rw [shift_of_le hge, List.getElem?_insertIdx_of_gt (by omega), Nat.add_sub_cancel]

theorem line?_insertLine_self (hk : k ≤ listing.size) : (listing.insertLine k line).line? k = some line := by
  rw [line?, insertLine, List.getElem?_toArray, List.getElem?_insertIdx_self, if_pos]
  rwa [Array.length_toList]

theorem size_insertLine (hk : k ≤ listing.size) : (listing.insertLine k line).size = listing.size + 1 := by
  rw [size, insertLine, List.size_toArray, List.length_insertIdx_of_le_length (by rwa [Array.length_toList]),
    Array.length_toList]
  rfl

theorem role_insertLine (listing : Listing) (k : Nat) (line : Line) (i : Nat) :
    (listing.insertLine k line).role (shift k i) = listing.role i := by
  rw [role, line?_insertLine, role]

/-! ### Searches -/

/-- A search goes over a blank line. -/
theorem search_behind (hk : k ≤ listing.size) (hr : line.role = .plain) (alternatives : Bool) (depth i : Nat) :
    (listing.insertLine k line).search alternatives (listing.size + 1 - (shift k i + 1)) depth (shift k i + 1) =
      (listing.insertLine k line).search alternatives (listing.size + 1 - shift k (i + 1)) depth
        (shift k (i + 1)) := by
  rcases eq_of_lands_shift (.behind i : Lands (shift k) (i + 1) (shift k i + 1)) with heq | ⟨heq, heq'⟩
  · rw [heq]
  · have hplain : (listing.insertLine k line).role k = .plain := by
      rw [role_of_line? (line?_insertLine_self hk), hr]
    rw [heq', heq, shift_of_le le_rfl, show listing.size + 1 - k = (listing.size + 1 - (k + 1)) + 1 by omega,
      search_succ, hplain]

theorem search_insertLine (hk : k ≤ listing.size) (hr : line.role = .plain) (alternatives : Bool)
    (depth i : Nat) :
    (listing.insertLine k line).search alternatives (listing.size + 1 - shift k i) depth (shift k i) =
      (listing.search alternatives (listing.size - i) depth i).map (shift k) := by
  -- by induction on the number of lines that are left to search in the old listing
  generalize hcount : listing.size - i = count
  induction count generalizing i depth with
  | zero =>
    rw [shift_of_le (by omega), show listing.size + 1 - (i + 1) = 0 by omega]
    rfl
  | succ count ih =>
    have hnext : ∀ depth, (listing.insertLine k line).search alternatives (listing.size + 1 - (shift k i + 1)) depth
        (shift k i + 1) = (listing.search alternatives count depth (i + 1)).map (shift k) := by
      intro depth
      rw [search_behind hk hr]
      exact ih depth (i + 1) (by omega)
    have hle : shift k i ≤ listing.size := by
      unfold shift
      split <;> omega
    rw [show listing.size + 1 - shift k i = (listing.size + 1 - (shift k i + 1)) + 1 by omega, search_succ,
      search_succ, role_insertLine]
    cases listing.role i with
    | opener => exact hnext _
    | closer =>
      by_cases hd : depth ≤ 1
      · simp only [hd, if_true, Option.map_some]
      · simp only [hd, if_false]
        exact hnext _
    | alternative =>
      by_cases ha : (alternatives && depth == 1) = true
      · simp only [ha, if_true, Option.map_some]
      · simp only [ha]
        exact hnext _
    | plain => exact hnext _

theorem sameBlocks_insertLine (hk : k ≤ listing.size) (hr : line.role = .plain) :
    SameBlocks (shift k) listing (listing.insertLine k line) := by
  refine ⟨role_insertLine listing k line, ?_, ?_⟩
  · intro i
    rw [closer?, closer?, size_insertLine hk, search_insertLine hk hr]
  · intro i
    rw [elseOrCloser?, elseOrCloser?, size_insertLine hk, search_insertLine hk hr]

end Listing

namespace Machine

variable {listing : Listing} {k : Nat} {blank : Line}

/-! ### Runs -/

theorem turn_blank {line : Line} {s : State} (hline : listing.line? s.pc = some line) (hb : line.isBlank = true) :
    turn listing none s = .more ⟨s.pc + 1, s.steps + 1, s.env⟩ [] := by
  have hex : execute listing s.pc s.env (.ofLine line) = ⟨s.env, [], .ok .next⟩ := by
    rw [Statement.ofLine, if_pos hb]
    rfl
  rw [turn_of_target hline rfl (by rw [hex]) (show Move.target? s.pc .next = some (s.pc + 1) from rfl), hex]

/-- After `m` rounds the run of the listing with an inserted line is in step with state `s` of the other run: it is on
the line that stands for the position, in the same environment, and has made the calls `made`. -/
structure Follows (listing : Listing) (k : Nat) (blank : Line) (s : State) (made : List Call) (m : Nat)
    (s' : State) : Prop where
  state : stateAt (listing.insertLine k blank) none m = some s'
  pc : s'.pc = shift k s.pc
  env : s'.env = s.env.renumber (shift k)
  calls : callsMade (listing.insertLine k blank) none m = made

/-- A machine that has landed on the blank line gets in step with one more round. -/
theorem exists_follows_of_lands {s s' : State} {m : Nat} (hk : k ≤ listing.size) (hb : blank.isBlank = true)
    (hs : stateAt (listing.insertLine k blank) none m = some s')
    (hpc : s'.pc = shift k s.pc ∨ (s.pc = k ∧ s'.pc = k)) (henv : s'.env = s.env.renumber (shift k)) :
    ∃ m' s'', m ≤ m' ∧ Follows listing k blank s (callsMade (listing.insertLine k blank) none m) m' s'' := by
  rcases hpc with hpc | ⟨hpc, hpc'⟩
  · exact ⟨m, s', le_rfl, hs, hpc, henv, rfl⟩
  · have ht : turn (listing.insertLine k blank) none s' = .more ⟨s'.pc + 1, s'.steps + 1, s'.env⟩ [] :=
      turn_blank (by rw [hpc']; exact Listing.line?_insertLine_self hk) hb
    refine ⟨m + 1, _, Nat.le_succ m, stateAt_succ hs ht, ?_, henv, ?_⟩
    · rw [hpc, hpc', shift_of_le le_rfl]
    · rw [callsMade_succ hs, ht]
      exact List.append_nil _

/-- The run of the listing with the blank line gets in step with every state of the other run. -/
theorem exists_follows {n : Nat} {s : State} (hk : k ≤ listing.size) (hb : blank.isBlank = true)
    (hs : stateAt listing none n = some s) :
    ∃ m s', n ≤ m ∧ Follows listing k blank s (callsMade listing none n) m s' := by
  induction n generalizing s with
  | zero =>
    cases hs
    refine exists_follows_of_lands hk hb rfl ?_ rfl
    rcases Nat.eq_zero_or_pos k with rfl | hpos
    · exact Or.inr ⟨rfl, rfl⟩
    · exact Or.inl (shift_of_lt hpos).symm
  | succ n ih =>
    obtain ⟨s₀, calls, hs₀, ht⟩ := stateAt_succ_eq_some hs
    obtain ⟨m, s₀', hnm, h⟩ := ih hs₀
    obtain ⟨s', ht', hlands, henv⟩ := turn_renumbered_more
      (Listing.sameBlocks_insertLine hk (Line.role_of_isBlank hb)) (Listing.line?_insertLine listing k blank)
      h.pc h.env ht
    obtain ⟨m', s'', hm', hfollows⟩ :=
      exists_follows_of_lands hk hb (stateAt_succ h.state ht') (eq_of_lands_shift hlands) henv
    rw [callsMade_succ h.state, ht', h.calls] at hfollows
    rw [callsMade_succ hs₀, ht]
    exact ⟨m', s'', by omega, hfollows⟩

/-- A run that ends does so with the blank line too. -/
theorem exists_run_insertLine {fuel : Nat} {event : Event} {calls : Array Call} (hk : k ≤ listing.size)
    (hb : blank.isBlank = true) (h : run fuel none listing = some (event, calls)) :
    ∃ fuel' calls', run fuel' none (listing.insertLine k blank) = some (event.renumber (shift k), calls') ∧
      printed calls'.toList = printed calls.toList := by
  obtain ⟨n, s, last, -, hs, ht, rfl⟩ := run_eq_some_iff.mp h
  obtain ⟨m, s', -, hf⟩ := exists_follows hk hb hs
  have hsize : (listing.insertLine k blank).size = shift k listing.size := by
    rw [Listing.size_insertLine hk, shift_of_le hk]
  obtain ⟨last', ht', hprinted⟩ := turn_renumbered_done
    (Listing.sameBlocks_insertLine hk (Line.role_of_isBlank hb)) (Listing.line?_insertLine listing k blank)
    hsize hf.pc hf.env ht
  refine ⟨m + 1, _, run_eq_some_iff.mpr ⟨m, s', last', Nat.lt_succ_self m, hf.state, ht', rfl⟩, ?_⟩
  rw [List.toList_toArray, List.toList_toArray, hf.calls, printed_append, printed_append, hprinted]

/-- A run that goes on forever does so with the blank line too. -/
theorem run_insertLine_eq_none (hk : k ≤ listing.size) (hb : blank.isBlank = true)
    (h : ∀ fuel, run fuel none listing = none) (fuel : Nat) : run fuel none (listing.insertLine k blank) = none := by
  obtain ⟨s, hs⟩ := run_eq_none_iff.mp (h fuel)
  obtain ⟨m, s', hm, hf⟩ := exists_follows hk hb hs
  exact run_eq_none_iff.mpr (exists_stateAt_of_le hm hf.state)

/-- **Blank lines are inert.**  A run without a limit ends just when it does with a blank line inserted, and then it
prints the same texts and ends with the same event; a fault on a line is met on the same line, which may have another
number. -/
theorem blank_line_inert {listing : Listing} {k : Nat} {blank : Line} (hk : k ≤ listing.size)
    (hb : blank.isBlank = true) :
    ((∃ fuel r, run fuel none (listing.insertLine k blank) = some r) ↔ ∃ fuel r, run fuel none listing = some r) ∧
    ∀ fuel fuel' event event' calls calls', run fuel none listing = some (event, calls) →
      run fuel' none (listing.insertLine k blank) = some (event', calls') →
      event' = event.renumber (shift k) ∧ printed calls'.toList = printed calls.toList := by
  refine ⟨⟨?_, ?_⟩, ?_⟩
  · rintro ⟨fuel, r, hr⟩
    by_contra hno
    have hnone : ∀ fuel, run fuel none listing = none := by
      intro fuel
      cases hrun : run fuel none listing with
      | none => rfl
      | some r => exact absurd ⟨fuel, r, hrun⟩ hno
    rw [run_insertLine_eq_none hk hb hnone fuel] at hr
    cases hr
  · rintro ⟨fuel, ⟨event, calls⟩, hr⟩
    obtain ⟨fuel', calls', hr', -⟩ := exists_run_insertLine hk hb hr
    exact ⟨fuel', _, hr'⟩
  · intro fuel fuel' event event' calls calls' hr hr'
    obtain ⟨fuel'', calls'', hr'', hprinted⟩ := exists_run_insertLine hk hb hr
    have heq := runFrom_unique hr' hr''
    rw [Prod.mk.injEq] at heq
    obtain ⟨rfl, rfl⟩ := heq
    exact ⟨rfl, hprinted⟩

/-- A loop, and behind it a line that fails. -/
def failsBehindLoop : Listing :=
  ⟨#[⟨["integer", "i"]⟩, ⟨["while", "i", "<", "2"]⟩, ⟨["i", "=", "i", "+", "1"]⟩, ⟨["print", "i"]⟩, ⟨["end"]⟩,
    ⟨["print", "j"]⟩]⟩

/-- The loop is left onto the inserted line. -/
theorem blank_line_inert_failsBehindLoop :
    5 ≤ failsBehindLoop.size ∧ Line.isBlank ⟨["//", "done"]⟩ = true ∧
      ∃ fuel calls, run fuel none (failsBehindLoop.insertLine 5 ⟨["//", "done"]⟩) =
        some (.failed ⟨.undeclared "j", some 6⟩, calls) ∧ printed calls.toList = ["1", "\n", "2", "\n"] := by
  have hk : 5 ≤ failsBehindLoop.size := by decide
  have hb : Line.isBlank ⟨["//", "done"]⟩ = true := by decide
  have hrun : run 12 none failsBehindLoop =
      some (.failed ⟨.undeclared "j", some 5⟩, #[.print "1", .newline, .print "2", .newline,
        .error (Fault.report ⟨.undeclared "j", some 5⟩)]) := rfl
  obtain ⟨hends, hsame⟩ := blank_line_inert hk hb
  obtain ⟨fuel, ⟨event, calls⟩, hrun'⟩ := hends.mpr ⟨12, _, hrun⟩
  obtain ⟨rfl, hprinted⟩ := hsame 12 fuel _ _ _ _ hrun hrun'
  exact ⟨hk, hb, fuel, calls, hrun', hprinted⟩

end Machine

end LineScript
