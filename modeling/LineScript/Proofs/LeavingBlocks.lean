import LineScript.Proofs.BlockEnds
import LineScript.Proofs.BlockStructure
import LineScript.Proofs.Disposal

/-!
# LineScript.Proofs.LeavingBlocks — leaving several blocks at once

A `break` or `continue` looks up the end of the outermost block that it leaves and no other, before it closes anything.
In a state of a run it still does what leaving the blocks one after the other does: the inner blocks have their ends
too, because blocks are nested, and what is disposed of on the way is disposed of by the last one alone.

* `Variables.toList_dispose`: in a well scoped table disposal keeps the variables of lower depth, wherever they stand.
* `Environment.closeBlocks_add`: closing blocks in two goes.
* `Reaction.Atomic`: a failure leaves everything as it was.
* `Machine.leaveBlocks_eq_ok_iff`: when blocks are left, and what comes of it.
* `Machine.exists_closer?_of_outer`: a block inside one that ends has an end.
* `Machine.leaving_composes`: leaving blocks in one go and in two.
-/

namespace LineScript

namespace Variables

variable {vars : Variables} {depth d : Nat}

/-- In a well scoped table the variables that disposal keeps are told by their depth alone. -/
theorem toList_dispose (h : vars.WellScoped depth) :
    (vars.dispose (d + 1)).toList = vars.toList.filter fun v => v.scope ≤ d := by
  have hordered : vars.toList.Pairwise fun v w => v.scope ≤ w.scope := by
    have hdeclarations := h.ordered
    rwa [declarations, List.pairwise_map] at hdeclarations
  rw [toList_dispose_of_ordered hordered]
  simp only [Nat.lt_succ_iff]

end Variables

namespace Environment

variable {env env' : Environment}

theorem closeBlocks_add (m n : Nat) (env : Environment) :
    env.closeBlocks (m + n) = (env.closeBlocks m >>= closeBlocks n) := by
  induction m generalizing env with
  | zero => rw [Nat.zero_add, closeBlocks, ok_bind]
  | succ m ih =>
    rw [show m + 1 + n = (m + n) + 1 by omega, closeBlocks, closeBlocks]
    cases env.closeBlock with
    | error cause => rfl
    | ok r => exact ih r.2

/-- Closing blocks drops just the variables that are deeper than the blocks left open. -/
theorem toList_of_closeBlocks {n : Nat} (hv : env.vars.WellScoped env.depth) (h : env.closeBlocks n = .ok env') :
    env'.vars.toList = env.vars.toList.filter fun v => v.scope ≤ env'.depth := by
  obtain ⟨hn, -, hvars⟩ := closeBlocks_eq_ok_iff.mp h
  rw [depth_of_closeBlocks h]
  cases n with
  | zero =>
    rw [hvars, if_pos rfl, Nat.sub_zero, eq_comm, List.filter_eq_self]
    intro v hmem
    exact decide_eq_true (hv.bounded v.declaration (List.mem_map_of_mem hmem))
  | succ n =>
    rw [hvars, if_neg (Nat.succ_ne_zero n), show env.depth + 1 - (n + 1) = env.depth - (n + 1) + 1 by omega]
    exact Variables.toList_dispose hv

theorem opener?_of_closeBlocks {n : Nat} (h : env.closeBlocks n = .ok env') (level : Nat) :
    env'.opener? level = env.opener? (n + level) := by
  rw [opener?_eq, opener?_eq, (closeBlocks_eq_ok_iff.mp h).2.1, List.getElem?_drop]

theorem lt_depth_of_opener? {level i : Nat} (h : env.opener? level = some i) : level < env.depth := by
  rw [depth_eq_length]
  exact (List.getElem?_eq_some_iff.mp h).1

theorem exists_opener? {level : Nat} (h : level < env.depth) : ∃ i, env.opener? level = some i := by
  rw [depth_eq_length] at h
  exact ⟨_, List.getElem?_eq_getElem h⟩

end Environment

/-- A reaction that leaves everything as it was if it fails. -/
def Reaction.Atomic (env : Environment) (r : Reaction) : Prop :=
  ∀ cause, r.outcome = .error cause → r = ⟨env, [], .error cause⟩

namespace Machine

variable {listing : Listing} {limit : Option Nat}

section Lines

variable {env env' : Environment} {levels level : Nat} {closing : Bool}

theorem atomic_error (env : Environment) (cause : Cause) : Reaction.Atomic env ⟨env, [], .error cause⟩ := by
  intro cause' h
  cases h
  rfl

theorem atomic_attempt (env : Environment) (result : Except Cause (Environment × Move)) :
    (attempt env result).Atomic env := by
  intro cause h
  rw [attempt_eq_error h, attempt_error]

/-- Blocks are left when there are as many and the outermost of them has an end. -/
theorem leaveBlocks_eq_ok_iff {calls : List Call} {move : Move} :
    leaveBlocks listing env (level + 1) closing = ⟨env', calls, .ok move⟩ ↔
      ∃ i j, env.opener? level = some i ∧ listing.closer? i = some j ∧
        env.closeBlocks (if closing then level + 1 else level) = .ok env' ∧ calls = [] ∧
        move = .jump (if closing then j + 1 else j) := by
  constructor
  · intro h
    have hout : (leaveBlocks listing env (level + 1) closing).outcome = .ok move := by rw [h]
    have hd : level < env.depth := by
      by_contra hd
      rw [leaveBlocks_of_depth_lt (by omega)] at hout
      cases hout
    have hclosers : ∀ i, env.opener? level = some i → ∃ j, listing.closer? i = some j := by
      intro i hi
      cases hj : listing.closer? i with
      | some j => exact ⟨j, rfl⟩
      | none =>
        rw [leaveBlocks, if_neg (by omega), Nat.add_sub_cancel, hi] at hout
        simp [Listing.closer, hj] at hout
    obtain ⟨i, j, env₁, hi, hj, hc, he⟩ := exists_leaveBlocks closing hd hclosers
    rw [he, Reaction.mk.injEq, Except.ok.injEq] at h
    obtain ⟨rfl, rfl, rfl⟩ := h
    exact ⟨i, j, hi, hj, hc, rfl, rfl⟩
  · rintro ⟨i, j, hi, hj, hc, rfl, rfl⟩
    have hd := Environment.lt_depth_of_opener? hi
    rw [leaveBlocks, if_neg (by omega), Nat.add_sub_cancel, hi]
    simp [Listing.closer, hj, hc]

/-- Blocks that cannot be left stay as they are. -/
theorem atomic_leaveBlocks (listing : Listing) (env : Environment) (levels : Nat) (closing : Bool) :
    (leaveBlocks listing env levels closing).Atomic env := by
  unfold leaveBlocks
  split
  · exact atomic_error env _
  · split
    · exact atomic_error env _
    · exact atomic_attempt env _

theorem leaveBlocks_error_iff :
    (∃ cause, (leaveBlocks listing env levels closing).outcome = .error cause) ↔
      levels = 0 ∨ env.depth < levels ∨ ∃ i, env.opener? (levels - 1) = some i ∧ listing.closer? i = none := by
  constructor
  · rintro ⟨cause, h⟩
    by_contra hno
    simp only [not_or, not_lt, not_exists, not_and] at hno
    obtain ⟨h₀, hd, hclosers⟩ := hno
    obtain ⟨level, rfl⟩ : ∃ level, levels = level + 1 := ⟨levels - 1, by omega⟩
    have hends : ∀ i, env.opener? level = some i → ∃ j, listing.closer? i = some j :=
      fun i hi => Option.ne_none_iff_exists'.mp (hclosers i hi)
    obtain ⟨i, j, env', -, -, -, he⟩ := exists_leaveBlocks closing (Nat.lt_of_succ_le hd) hends
    rw [he] at h
    cases h
  · rintro (rfl | hd | ⟨i, hi, hj⟩)
    · exact ⟨_, rfl⟩
    · exact ⟨_, by rw [leaveBlocks_of_depth_lt hd]⟩
    · rw [leaveBlocks]
      split
      · exact ⟨_, rfl⟩
      · rw [hi]
        exact ⟨.unterminatedScope, by simp [Listing.closer, hj]⟩

/-- A block inside one that ends has an end. -/
theorem exists_closer?_of_outer {pc inner outer i j : Nat} (hn : listing.nesting? pc = some env.blocks.items)
    (hi : env.opener? outer = some i) (hj : listing.closer? i = some j) (hlt : inner < outer) :
    ∃ i' j', env.opener? inner = some i' ∧ listing.closer? i' = some j' := by
  have hd := Environment.lt_depth_of_opener? hi
  obtain ⟨i', hi'⟩ := Environment.exists_opener? (show inner < env.depth by omega)
  have hlen : env.blocks.items.length = env.depth := (Environment.depth_eq_length env).symm
  -- both searches pass through line `pc`, the one for the outer block with more blocks open
  rw [Listing.closer?_eq_search (nesting?_split hn hi), List.length_take_of_le (by omega)] at hj
  obtain ⟨j', -, hj'⟩ := Listing.exists_search_of_deeper (Nat.succ_pos inner) (Nat.succ_lt_succ hlt) hj
  refine ⟨i', j', hi', ?_⟩
  rw [Listing.closer?_eq_search (nesting?_split hn hi'), List.length_take_of_le (by omega)]
  exact hj'

/-- Leaving blocks in one go is leaving some of them and then the others. -/
theorem leaveBlocks_add_iff {pc : Nat} (hn : listing.nesting? pc = some env.blocks.items) (m n : Nat) {move : Move} :
    leaveBlocks listing env (m + 1 + (n + 1)) closing = ⟨env', [], .ok move⟩ ↔
      ∃ mid between, leaveBlocks listing env (m + 1) true = ⟨mid, [], .ok between⟩ ∧
        leaveBlocks listing mid (n + 1) closing = ⟨env', [], .ok move⟩ := by
  have hlevels : (if closing then m + 1 + n + 1 else m + 1 + n) = m + 1 + (if closing then n + 1 else n) := by
    cases closing <;> rfl
  rw [show m + 1 + (n + 1) = (m + 1 + n) + 1 by omega, leaveBlocks_eq_ok_iff, hlevels]
  simp only [leaveBlocks_eq_ok_iff, if_true, true_and]
  constructor
  · rintro ⟨i, j, hi, hj, hc, rfl⟩
    obtain ⟨i', j', hi', hj'⟩ := exists_closer?_of_outer hn hi hj (show m < m + 1 + n by omega)
    rw [Environment.closeBlocks_add] at hc
    obtain ⟨mid, hmid, hc⟩ := bind_eq_ok_iff.mp hc
    refine ⟨mid, _, ⟨i', j', hi', hj', hmid, rfl⟩, i, j, ?_, hj, hc, rfl⟩
    rw [Environment.opener?_of_closeBlocks hmid]
    exact hi
  · rintro ⟨mid, between, ⟨i', j', hi', hj', hmid, -⟩, i, j, hi, hj, hc, rfl⟩
    rw [Environment.opener?_of_closeBlocks hmid] at hi
    refine ⟨i, j, hi, hj, ?_, rfl⟩
    rw [Environment.closeBlocks_add, hmid]
    exact hc

end Lines

/-- **Leaving blocks composes.**  In every state of a run, leaving `m + n` blocks is leaving `m` and then `n`, with the
same open blocks, the same variables and the same move.  Leaving `k` blocks closes them, or all but the outermost, drops
the variables that are deeper than the blocks left open, and goes behind the closer of the outermost or onto it.  It
fails just when there is nothing to leave, when fewer blocks are open, or when the outermost one has no closer, and then
changes nothing. -/
theorem leaving_composes {listing : Listing} {limit : Option Nat} {t : Nat} {s : State}
    (hs : stateAt listing limit t = some s) :
    (∀ m n closing env' move, 1 ≤ m → 1 ≤ n →
      (leaveBlocks listing s.env (m + n) closing = ⟨env', [], .ok move⟩ ↔
        ∃ mid between, leaveBlocks listing s.env m true = ⟨mid, [], .ok between⟩ ∧
          leaveBlocks listing mid n closing = ⟨env', [], .ok move⟩)) ∧
    (∀ k closing env' calls move, leaveBlocks listing s.env k closing = ⟨env', calls, .ok move⟩ →
      calls = [] ∧
      env'.blocks.items = s.env.blocks.items.drop (if closing then k else k - 1) ∧
      env'.depth + (if closing then k else k - 1) = s.env.depth ∧
      env'.vars.toList = s.env.vars.toList.filter (fun v => v.scope ≤ env'.depth) ∧
      ∃ i j, s.env.opener? (k - 1) = some i ∧ IsLeast (listing.endsBehind i) j ∧
        move = .jump (if closing then j + 1 else j)) ∧
    ∀ k closing,
      (∀ cause, (leaveBlocks listing s.env k closing).outcome = .error cause →
        leaveBlocks listing s.env k closing = ⟨s.env, [], .error cause⟩) ∧
      ((∃ cause, (leaveBlocks listing s.env k closing).outcome = .error cause) ↔
        k = 0 ∨ s.env.depth < k ∨ ∃ i, s.env.opener? (k - 1) = some i ∧ listing.endsBehind i = ∅) := by
  have hn := (nesting?_of_stateAt hs).2
  have hrole : ∀ {level i}, s.env.opener? level = some i → listing.role i = .opener :=
    fun hi => (nesting?_of_opener? hn hi).2.1
  refine ⟨?_, ?_, fun k closing => ⟨atomic_leaveBlocks listing s.env k closing, ?_⟩⟩
  · intro m n closing env' move hm hn'
    obtain ⟨m, rfl⟩ := Nat.exists_eq_add_of_le' hm
    obtain ⟨n, rfl⟩ := Nat.exists_eq_add_of_le' hn'
    exact leaveBlocks_add_iff hn m n
  · intro k closing env' calls move h
    cases k with
    | zero => cases h
    | succ level =>
      obtain ⟨i, j, hi, hj, hc, rfl, rfl⟩ := leaveBlocks_eq_ok_iff.mp h
      have hlevels := (Environment.closeBlocks_eq_ok_iff.mp hc).1
      have hdepth := Environment.depth_of_closeBlocks hc
      rw [Nat.add_sub_cancel]
      refine ⟨rfl, (Environment.closeBlocks_eq_ok_iff.mp hc).2.1, by omega,
        Environment.toList_of_closeBlocks (wellScoped_of_stateAt hs) hc, i, j, hi, ?_, rfl⟩
      exact (Listing.closer?_eq_some_iff (hrole hi)).mp hj
  · rw [leaveBlocks_error_iff]
    refine or_congr_right (or_congr_right (exists_congr fun i => and_congr_right fun hi => ?_))
    exact Listing.closer?_eq_none_iff (hrole hi)

/-- Three nested blocks with a variable in each. -/
def threeBlocks : Listing :=
  ⟨#[⟨["push"]⟩, ⟨["integer", "a"]⟩, ⟨["while", "true"]⟩, ⟨["integer", "b"]⟩, ⟨["if", "true"]⟩, ⟨["integer", "c"]⟩,
    ⟨["end"]⟩, ⟨["end"]⟩, ⟨["pop"]⟩]⟩

theorem leaving_composes_threeBlocks :
    ∃ s env', stateAt threeBlocks none 6 = some s ∧ s.env.blocks.items = [4, 2, 0] ∧
      leaveBlocks threeBlocks s.env (1 + 2) false = ⟨env', [], .ok (.jump 8)⟩ ∧
      (∃ mid between, leaveBlocks threeBlocks s.env 1 true = ⟨mid, [], .ok between⟩ ∧
        leaveBlocks threeBlocks mid 2 false = ⟨env', [], .ok (.jump 8)⟩) ∧
      env'.vars.toList.map Variable.name = ["a"] ∧ IsLeast (threeBlocks.endsBehind 0) 8 := by
  have hs : ∃ s, stateAt threeBlocks none 6 = some s ∧ s.env.blocks.items = [4, 2, 0] ∧
      ∃ env', leaveBlocks threeBlocks s.env (1 + 2) false = ⟨env', [], .ok (.jump 8)⟩ ∧
        env'.vars.toList.map Variable.name = ["a"] := ⟨_, rfl, rfl, _, rfl, rfl⟩
  obtain ⟨s, hs, hblocks, env', hleave, hnames⟩ := hs
  obtain ⟨hcompose, hsuccess, -⟩ := leaving_composes hs
  obtain ⟨-, -, -, -, i, j, hi, hj, hmove⟩ := hsuccess 3 false env' [] (.jump 8) hleave
  have hopener : s.env.opener? 2 = some 0 := by rw [Environment.opener?_eq, hblocks]; rfl
  rw [hopener, Option.some.injEq] at hi
  rw [Move.jump.injEq] at hmove
  simp only [Bool.false_eq_true, if_false] at hmove
  subst hi hmove
  exact ⟨s, env', hs, hblocks, hleave,
    (hcompose 1 2 false env' (.jump 8) (by decide) (by decide)).mp hleave, hnames, hj⟩

end Machine

end LineScript
