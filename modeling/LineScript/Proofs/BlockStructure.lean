import LineScript.Engine
import LineScript.Proofs.Causes

/-!
# LineScript.Proofs.BlockStructure — open blocks are enclosing blocks

The machine keeps a stack of open blocks and finds the ends of blocks by searching, without ever reading the listing
as a whole.  Still its stack is at every moment the lexical nesting of the line that it is about to execute.
-/

namespace LineScript.Machine

variable {listing : Listing} {limit : Option Nat}

/-! ### One step -/

theorem drop_eq_cons_of_opener? {env : Environment} {n i : Nat} (h : env.opener? n = some i) :
    env.blocks.items.drop n = i :: env.blocks.items.drop (n + 1) := by
  obtain ⟨hn, hi⟩ := List.getElem?_eq_some_iff.mp (env.opener?_eq n ▸ h)
  rw [List.drop_eq_getElem_cons hn, hi]

theorem nesting?_split {pc n i : Nat} {env : Environment} (hn : listing.nesting? pc = some env.blocks.items)
    (h : env.opener? n = some i) :
    listing.nesting? pc = some (env.blocks.items.take n ++ i :: env.blocks.items.drop (n + 1)) := by
  rw [hn, ← drop_eq_cons_of_opener? h, List.take_append_drop]

/-- An open block that is an enclosing one: its line is an opener, with the blocks below it on the stack around. -/
theorem nesting?_of_opener? {pc n i : Nat} {env : Environment} (hn : listing.nesting? pc = some env.blocks.items)
    (h : env.opener? n = some i) :
    i < pc ∧ listing.role i = .opener ∧ listing.nesting? i = some (env.blocks.items.drop (n + 1)) :=
  Listing.nesting?_at_opener (nesting?_split hn h)

/-- A transition from a line whose enclosing blocks are the open ones leads to another such line. -/
theorem Transition.nesting? {pc target : Nat} {env env' : Environment} (h : Transition listing pc env env' target)
    (hpc : pc < listing.size) (hn : listing.nesting? pc = some env.blocks.items) :
    target ≤ listing.size ∧ listing.nesting? target = some env'.blocks.items := by
  cases h with
  | pass hr => exact ⟨hpc, Listing.nesting?_other hn (by simp [hr]) (by simp [hr])⟩
  | declare hr h =>
    rw [(Environment.declare_eq_ok_iff.mp h).2]
    exact ⟨hpc, Listing.nesting?_other hn (by simp [hr]) (by simp [hr])⟩
  | store hr h => exact ⟨hpc, Listing.nesting?_other hn (by simp [hr]) (by simp [hr])⟩
  | enter hr h =>
    rw [(Environment.openBlock_eq_ok_iff.mp h).2.2]
    exact ⟨hpc, Listing.nesting?_opener hn hr⟩
  | enterElse hk h hj he =>
    have hr : listing.role pc = .opener := Listing.role_of_keyword? hk
    have hrj := Listing.role_of_keyword? he
    obtain ⟨-, -, hnj⟩ := Listing.nesting?_of_elseOrCloser? hn hr hj
    rw [(Environment.openBlock_eq_ok_iff.mp h).2.2]
    exact ⟨Listing.lt_size_of_role (by rw [hrj]; decide),
      Listing.nesting?_other hnj (by rw [hrj]; decide) (by rw [hrj]; decide)⟩
  | enterEnd hk h hj he =>
    have hr : listing.role pc = .opener := Listing.role_of_keyword? hk
    obtain ⟨-, hrj, hnj⟩ := Listing.nesting?_of_elseOrCloser? hn hr hj
    rw [(Environment.openBlock_eq_ok_iff.mp h).2.2]
    exact ⟨(Listing.lt_size_of_role (by rcases hrj with hrj | hrj <;> simp [hrj])).le, hnj⟩
  | skip hk hj =>
    have hr : listing.role pc = .opener := Listing.role_of_keyword? hk
    obtain ⟨-, hrj, hnj⟩ := Listing.nesting?_of_closer? hn hr hj
    exact ⟨Listing.lt_size_of_role (by simp [hrj]), Listing.nesting?_closer hnj hrj⟩
  | alternative hk hi hif hj =>
    obtain ⟨-, hr, hni⟩ := nesting?_of_opener? hn hi
    obtain ⟨-, hrj, hnj⟩ := Listing.nesting?_of_closer? hni hr hj
    rw [← drop_eq_cons_of_opener? hi] at hnj
    exact ⟨(Listing.lt_size_of_role (by simp [hrj])).le, hnj⟩
  | close h hk =>
    have hr : listing.role pc = .closer := by
      rcases hk with hk | ⟨hk, -⟩ <;> exact Listing.role_of_keyword? hk
    rw [(Environment.closeBlock_eq_ok_iff.mp h).1] at hn
    exact ⟨hpc, Listing.nesting?_closer hn hr⟩
  | loop h hk hw =>
    obtain ⟨hlt, -, hni⟩ := nesting?_of_opener? hn (Environment.opener?_of_closeBlock h)
    rw [(Environment.closeBlock_eq_ok_iff.mp h).1] at hni
    exact ⟨by omega, hni⟩
  | @leave n i j closing env' hr hi hj h =>
    obtain ⟨-, hri, hni⟩ := nesting?_of_opener? hn hi
    obtain ⟨-, hrj, hnj⟩ := Listing.nesting?_of_closer? hni hri hj
    have hlt : j < listing.size := Listing.lt_size_of_role (by simp [hrj])
    rw [(Environment.closeBlocks_eq_ok_iff.mp h).2.1]
    cases closing with
    | true => exact ⟨hlt, Listing.nesting?_closer hnj hrj⟩
    | false =>
      rw [← drop_eq_cons_of_opener? hi] at hnj
      exact ⟨hlt.le, hnj⟩

/-! ### Whole runs -/

/-- The position stays within the listing, and the open blocks are the blocks around it. -/
theorem nesting?_of_stateAt {n : Nat} {s : State} (h : stateAt listing limit n = some s) :
    s.pc ≤ listing.size ∧ listing.nesting? s.pc = some s.env.blocks.items := by
  induction n generalizing s with
  | zero =>
    cases h
    exact ⟨Nat.zero_le _, rfl⟩
  | succ n ih =>
    obtain ⟨s₀, calls, hs, ht⟩ := stateAt_succ_eq_some h
    obtain ⟨line, -, hline, -⟩ := turn_eq_more ht
    exact (transition_of_stateAt hs h).nesting? (Listing.lt_size_of_line? hline) (ih hs).2

/-- **Open blocks are enclosing blocks.**  Whatever jumps led to a position, it lies within the listing or just behind
it, the openers and closers above it match, and the stack of open blocks is what they leave open. -/
theorem open_blocks_eq_nesting {n : Nat} {s : State} (h : stateAt listing limit n = some s) :
    s.pc ≤ listing.size ∧ listing.nesting? s.pc = some s.env.blocks.items ∧
      ∀ i, (listing.role i = .opener ↔ listing.firstToken? i ∈ [some "push", some "if", some "while"]) ∧
        (listing.role i = .closer ↔ listing.firstToken? i ∈ [some "pop", some "end"]) := by
  obtain ⟨hpc, hn⟩ := nesting?_of_stateAt h
  refine ⟨hpc, hn, fun i => ⟨?_, ?_⟩⟩
  · rw [Listing.role_eq_opener_iff]
    simp [Listing.keyword?_eq_some_iff, Keyword.text]
  · rw [Listing.role_eq_closer_iff]
    simp [Listing.keyword?_eq_some_iff, Keyword.text]

/-- A listing with a closer too many: the `continue` on line 4 leaves the `if` and goes onto the end of the `push`. -/
def surplusEnd : Listing :=
  ⟨#[⟨["while", "true"]⟩, ⟨["push"]⟩, ⟨["if", "false"]⟩, ⟨["else"]⟩, ⟨["continue", "2"]⟩, ⟨["end"]⟩, ⟨["pop"]⟩,
    ⟨["end"]⟩, ⟨["end"]⟩]⟩

theorem open_blocks_eq_nesting_surplusEnd :
    ∃ s, stateAt surplusEnd none 4 = some s ∧ s.pc = 6 ∧ s.env.blocks.items = [1, 0] ∧
      surplusEnd.nesting? 6 = some [1, 0] :=
  ⟨_, rfl, rfl, rfl, (open_blocks_eq_nesting (show stateAt surplusEnd none 4 = some _ from rfl)).2.1⟩

end LineScript.Machine
