import LineScript.Proofs.Transitions

/-!
# LineScript.Proofs.Lifetime — variables live as long as their blocks

Closing a block disposes of the newest variables as long as they are deep enough.  That this gives back the table as
it was when the block was opened relates two distant moments of a run.

* `Machine.OpenSince t frame r s₀`: the block on top of `frame` is open after `t` lines, and it is the one that was
  opened by the line executed in state `s₀`, after `r` lines.
* `Machine.exists_openSince`: every open block was opened at some moment.
* `Machine.declarations_of_openSince`: since then the table has only grown, by variables of this block and of blocks
  inside it.
* `Machine.declarations_of_leave`: so closing it gives back the table.
-/

namespace LineScript.Machine

variable {listing : Listing} {limit : Option Nat}

/-- The block `frame.head` inside the blocks `frame.tail` is open after `t` lines of the run.  It was opened after `r`
lines, by the line executed in state `s₀`, and has stayed open since. -/
structure OpenSince (listing : Listing) (limit : Option Nat) (t : Nat) (frame : List Nat) (r : Nat) (s₀ : State) :
    Prop where
  before : r < t
  state : stateAt listing limit r = some s₀
  opened : frame = s₀.pc :: s₀.env.blocks.items
  stays : ∀ q, r < q → q ≤ t → ∃ s, stateAt listing limit q = some s ∧ frame <:+ s.env.blocks.items

theorem OpenSince.succ {t r : Nat} {frame : List Nat} {s₀ s : State} (h : OpenSince listing limit t frame r s₀)
    (hs : stateAt listing limit (t + 1) = some s) (hf : frame <:+ s.env.blocks.items) :
    OpenSince listing limit (t + 1) frame r s₀ := by
  refine ⟨by have := h.before; omega, h.state, h.opened, fun q hq hqt => ?_⟩
  rcases Nat.lt_or_ge q (t + 1) with hlt | hge
  · exact h.stays q hq (by omega)
  · obtain rfl : q = t + 1 := by omega
    exact ⟨s, hs, hf⟩

/-- Every open block was opened by an earlier line. -/
theorem exists_openSince {t : Nat} {s : State} {o : Nat} {outer : List Nat} (h : stateAt listing limit t = some s)
    (hf : (o :: outer) <:+ s.env.blocks.items) : ∃ r s₀, OpenSince listing limit t (o :: outer) r s₀ := by
  induction t generalizing s with
  | zero =>
    cases h
    exact absurd (List.suffix_nil.mp hf) (List.cons_ne_nil o outer)
  | succ t ih =>
    obtain ⟨s₁, calls, hs₁, ht⟩ := stateAt_succ_eq_some h
    -- the block was open before this line, or this line has opened it
    have hstep : (o :: outer) <:+ s₁.env.blocks.items ∨ o :: outer = s₁.pc :: s₁.env.blocks.items := by
      cases (transition_of_stateAt hs₁ h).change with
      | keep hb _ => exact Or.inl (hb ▸ hf)
      | declare hd => exact Or.inl ((Environment.declare_eq_ok_iff.mp hd).2 ▸ hf)
      | enter ho =>
        rw [(Environment.openBlock_eq_ok_iff.mp ho).2.2, List.suffix_cons_iff] at hf
        exact hf.symm
      | leave hc =>
        rw [(Environment.closeBlocks_eq_ok_iff.mp hc).2.1] at hf
        exact Or.inl (hf.trans (List.drop_suffix _ _))
    rcases hstep with hold | hnew
    · obtain ⟨r, s₀, hr⟩ := ih hs₁ hold
      exact ⟨r, s₀, hr.succ h hf⟩
    · refine ⟨t, s₁, Nat.lt_succ_self t, hs₁, hnew, fun q hq hqt => ?_⟩
      obtain rfl : q = t + 1 := by omega
      exact ⟨s, h, hf⟩

/-! ### The table while a block is open -/

theorem rdropWhile_append_of_neg {p : Declaration → Bool} {l l' : List Declaration} (h : ∀ d ∈ l, p d = false) :
    (l ++ l').rdropWhile p = l ++ l'.rdropWhile p := by
  induction l' using List.reverseRecOn with
  | nil =>
    rw [List.append_nil, List.rdropWhile_nil, List.append_nil, List.rdropWhile_eq_self_iff]
    intro hl
    simp [h _ (List.getLast_mem hl)]
  | append_singleton l' d ih =>
    rw [← List.append_assoc]
    by_cases hd : p d = true
    · rw [List.rdropWhile_concat_pos _ _ _ hd, List.rdropWhile_concat_pos _ _ _ hd, ih]
    · rw [List.rdropWhile_concat_neg _ _ _ hd, List.rdropWhile_concat_neg _ _ _ hd, List.append_assoc]

/-- One line, executed inside a block and leaving it open, keeps the older part of the table. -/
theorem grown_of_change {pc depth : Nat} {env env' : Environment} {older newer : List Declaration}
    (h : env.Change pc env') (heq : env.vars.declarations = older ++ newer) (ho : ∀ d ∈ older, d.scope < depth)
    (hn : ∀ d ∈ newer, depth ≤ d.scope) (hd : depth ≤ env.depth) (hd' : depth ≤ env'.depth) :
    ∃ newer', env'.vars.declarations = older ++ newer' ∧ ∀ d ∈ newer', depth ≤ d.scope := by
  cases h with
  | keep hb hv => exact ⟨newer, hv.trans heq, hn⟩
  | @declare name ty h =>
    refine ⟨newer ++ [⟨name, ty, env.depth⟩], ?_, fun d hmem => ?_⟩
    · rw [Variables.declarations_declare (Environment.declare_eq_ok_iff.mp h).1, heq, List.append_assoc]
    · rcases List.mem_append.mp hmem with hmem | hmem
      · exact hn d hmem
      · rw [List.mem_singleton.mp hmem]
        exact hd
  | enter h =>
    rw [(Environment.openBlock_eq_ok_iff.mp h).2.1]
    exact ⟨newer, heq, hn⟩
  | @leave n h =>
    obtain ⟨hle, -, hv⟩ := Environment.closeBlocks_eq_ok_iff.mp h
    have hdepth := Environment.depth_of_closeBlocks h
    rw [if_neg (Nat.succ_ne_zero n)] at hv
    rw [hv, Variables.declarations_dispose, heq]
    refine ⟨_, rdropWhile_append_of_neg fun d hmem => ?_, fun d hmem => ?_⟩
    · have := ho d hmem
      exact decide_eq_false (by omega)
    · exact hn d ((List.rdropWhile_prefix _ _).subset hmem)

/-- While a block stays open the table only grows beyond what it was when the block was opened, and everything new is
at least as deep as the block. -/
theorem declarations_of_openSince {t r : Nat} {frame : List Nat} {s₀ s : State}
    (h : OpenSince listing limit t frame r s₀) (hs : stateAt listing limit t = some s) :
    ∃ newer, s.env.vars.declarations = s₀.env.vars.declarations ++ newer ∧ ∀ d ∈ newer, frame.length ≤ d.scope := by
  have hlen : frame.length = s₀.env.depth + 1 := by
    rw [h.opened, List.length_cons, Environment.depth_eq_length]
  have hold : ∀ d ∈ s₀.env.vars.declarations, d.scope < frame.length := by
    intro d hd
    have := (wellScoped_of_stateAt h.state).bounded d hd
    omega
  have hdeep : ∀ q s, r < q → q ≤ t → stateAt listing limit q = some s → frame.length ≤ s.env.depth := by
    intro q s hq hqt hs
    obtain ⟨s', hs', hf⟩ := h.stays q hq hqt
    rw [hs, Option.some.injEq] at hs'
    subst hs'
    rw [Environment.depth_eq_length]
    exact hf.length_le
  have key : ∀ q s, r < q → q ≤ t → stateAt listing limit q = some s →
      ∃ newer, s.env.vars.declarations = s₀.env.vars.declarations ++ newer ∧
        ∀ d ∈ newer, frame.length ≤ d.scope := by
    intro q
    induction q with
    | zero => intro s hq; omega
    | succ q ih =>
      intro s hq hqt hs
      obtain ⟨s₁, calls, hs₁, -⟩ := stateAt_succ_eq_some hs
      have hchange := (transition_of_stateAt hs₁ hs).change
      rcases Nat.lt_or_ge r q with hlt | hge
      · obtain ⟨newer, heq, hn⟩ := ih s₁ hlt (by omega) hs₁
        exact grown_of_change hchange heq hold hn (hdeep q s₁ hlt (by omega) hs₁) (hdeep (q + 1) s hq hqt hs)
      · -- line `r` has opened the block
        obtain rfl : q = r := by omega
        rw [h.state, Option.some.injEq] at hs₁
        subst hs₁
        have hopen := hchange.openBlock_of_depth_lt (by have := hdeep (q + 1) s hq hqt hs; omega)
        exact ⟨[], by rw [(Environment.openBlock_eq_ok_iff.mp hopen).2.1, List.append_nil], by simp⟩
  exact key t s h.before le_rfl hs

/-- Closing blocks gives back the table as it was before the outermost of them was opened. -/
theorem declarations_of_leave {t r o : Nat} {s₀ s s' : State} (hs : stateAt listing limit t = some s)
    (hs' : stateAt listing limit (t + 1) = some s') (hd : s'.env.depth < s.env.depth)
    (h : OpenSince listing limit t (o :: s'.env.blocks.items) r s₀) :
    s'.env.vars.declarations = s₀.env.vars.declarations := by
  obtain ⟨newer, heq, hn⟩ := declarations_of_openSince h hs
  obtain ⟨-, houter⟩ := List.cons_eq_cons.mp h.opened
  have hdepth : s'.env.depth = s₀.env.depth := Environment.depth_eq_of_items houter
  have hold := (wellScoped_of_stateAt h.state).bounded
  rw [List.length_cons, ← Environment.depth_eq_length] at hn
  obtain ⟨n, hc⟩ := (transition_of_stateAt hs hs').change.closeBlocks_of_depth_lt hd
  obtain ⟨hle, -, hv⟩ := Environment.closeBlocks_eq_ok_iff.mp hc
  have hd' := Environment.depth_of_closeBlocks hc
  rw [if_neg (Nat.succ_ne_zero n), show s.env.depth + 1 - (n + 1) = s'.env.depth + 1 by omega] at hv
  rw [hv]
  exact Variables.declarations_dispose_of_split heq (fun d hmem => by have := hold d hmem; omega) hn

/-- The outermost of the blocks that a line closes was opened by an earlier line. -/
theorem exists_openSince_of_leave {t : Nat} {s s' : State} (hs : stateAt listing limit t = some s)
    (hs' : stateAt listing limit (t + 1) = some s') (hd : s'.env.depth < s.env.depth) :
    ∃ o r s₀, OpenSince listing limit t (o :: s'.env.blocks.items) r s₀ := by
  obtain ⟨n, hc⟩ := (transition_of_stateAt hs hs').change.closeBlocks_of_depth_lt hd
  obtain ⟨hle, hitems, -⟩ := Environment.closeBlocks_eq_ok_iff.mp hc
  rw [Environment.depth_eq_length] at hle
  have hf : (s.env.blocks.items[n] :: s'.env.blocks.items) <:+ s.env.blocks.items := by
    rw [hitems, ← List.drop_eq_getElem_cons (by omega)]
    exact List.drop_suffix _ _
  obtain ⟨r, s₀, h⟩ := exists_openSince hs hf
  exact ⟨_, r, s₀, h⟩

/-! ### The places of the table -/

theorem getElem?_of_initial {l l' : List Declaration} (h : l <+: l') {k : Nat} (hk : k < l.length) :
    l'[k]? = l[k]? := by
  obtain ⟨newer, rfl⟩ := h
  exact List.getElem?_append_left hk

/-- A place of the table that is taken before and after a line holds the same declaration. -/
theorem getElem?_of_change {pc k : Nat} {env env' : Environment} (h : env.Change pc env') (hk : k < env.vars.size)
    (hk' : k < env'.vars.size) : env'.vars.declarations[k]? = env.vars.declarations[k]? := by
  rw [← Variables.length_declarations] at hk hk'
  cases h with
  | keep _ hv => rw [hv]
  | declare h =>
    refine getElem?_of_initial ?_ hk
    rw [Variables.declarations_declare (Environment.declare_eq_ok_iff.mp h).1]
    exact List.prefix_append _ _
  | enter h => rw [(Environment.openBlock_eq_ok_iff.mp h).2.1]
  | @leave n h =>
    refine (getElem?_of_initial ?_ hk').symm
    rw [(Environment.closeBlocks_eq_ok_iff.mp h).2.2, if_neg (Nat.succ_ne_zero n), Variables.declarations_dispose]
    exact List.rdropWhile_prefix _ _

theorem getElem?_of_taken {t u k : Nat} {s s' : State} (htu : t ≤ u) (hs : stateAt listing limit t = some s)
    (hs' : stateAt listing limit u = some s')
    (htaken : ∀ q s, t ≤ q → q ≤ u → stateAt listing limit q = some s → k < s.env.vars.size) :
    s'.env.vars.declarations[k]? = s.env.vars.declarations[k]? := by
  induction u generalizing s' with
  | zero =>
    obtain rfl : t = 0 := by omega
    rw [hs, Option.some.injEq] at hs'
    rw [hs']
  | succ u ih =>
    rcases Nat.lt_or_ge t (u + 1) with hlt | hge
    · obtain ⟨s₁, calls, hs₁, -⟩ := stateAt_succ_eq_some hs'
      have hchange := (transition_of_stateAt hs₁ hs').change
      rw [getElem?_of_change hchange (htaken u s₁ (by omega) (by omega) hs₁) (htaken (u + 1) s' htu le_rfl hs')]
      exact ih (by omega) hs₁ fun q s hq hqu => htaken q s hq (by omega)
    · obtain rfl : t = u + 1 := by omega
      rw [hs, Option.some.injEq] at hs'
      rw [hs']

/-- **Variables live as long as their blocks.**  In every state of a run the table is well scoped.  Whenever a line
closes blocks, the declarations are again those of the state in which the outermost of them was opened, a moment that
there always is.  As long as a place of the table is taken it keeps its name, type and depth.  A block that is
opened right after one at its place was closed, as the next pass of a `while`, starts with the same declarations. -/
theorem lexical_lifetime (listing : Listing) (limit : Option Nat) :
    (∀ t s, stateAt listing limit t = some s → s.env.vars.WellScoped s.env.depth) ∧
    (∀ t s s', stateAt listing limit t = some s → stateAt listing limit (t + 1) = some s' →
      s'.env.depth < s.env.depth →
      (∃ o r s₀, OpenSince listing limit t (o :: s'.env.blocks.items) r s₀) ∧
      ∀ o r s₀, OpenSince listing limit t (o :: s'.env.blocks.items) r s₀ →
        s'.env.vars.declarations = s₀.env.vars.declarations) ∧
    (∀ t u k s s', t ≤ u → stateAt listing limit t = some s → stateAt listing limit u = some s' →
      (∀ q s, t ≤ q → q ≤ u → stateAt listing limit q = some s → k < s.env.vars.size) →
      s'.env.vars.declarations[k]? = s.env.vars.declarations[k]?) ∧
    ∀ r t s₀ body s body', OpenSince listing limit t (s₀.pc :: s₀.env.blocks.items) r s₀ →
      stateAt listing limit (r + 1) = some body → stateAt listing limit (t + 1) = some s →
      s.env.blocks.items = s₀.env.blocks.items → stateAt listing limit (t + 2) = some body' →
      s.env.depth < body'.env.depth → body'.env.vars.declarations = body.env.vars.declarations := by
  refine ⟨fun t s hs => wellScoped_of_stateAt hs, fun t s s' hs hs' hd => ?_, fun t u k s s' => getElem?_of_taken, ?_⟩
  · exact ⟨exists_openSince_of_leave hs hs' hd, fun o r s₀ h => declarations_of_leave hs hs' hd h⟩
  · intro r t s₀ body s body' h hbody hs hitems hbody' hdeeper
    obtain ⟨st, hst, hf⟩ := h.stays t h.before le_rfl
    obtain ⟨sb, hsb, hfb⟩ := h.stays (r + 1) (Nat.lt_succ_self r) h.before
    rw [hbody, Option.some.injEq] at hsb
    subst hsb
    have hlen := hf.length_le
    have hlenb := hfb.length_le
    rw [List.length_cons, ← Environment.depth_eq_length, ← Environment.depth_eq_length] at hlen hlenb
    have hdepth := Environment.depth_eq_of_items hitems
    have hopen := (transition_of_stateAt h.state hbody).change.openBlock_of_depth_lt (by omega)
    have hopen' := (transition_of_stateAt hs hbody').change.openBlock_of_depth_lt hdeeper
    rw [← hitems] at h
    rw [(Environment.openBlock_eq_ok_iff.mp hopen').2.1, (Environment.openBlock_eq_ok_iff.mp hopen).2.1]
    exact declarations_of_leave hst hs (by omega) h

/-- A loop with a variable of its own. -/
def loopVariable : Listing :=
  ⟨#[⟨["integer", "i"]⟩, ⟨["while", "i", "<", "2"]⟩, ⟨["integer", "t"]⟩, ⟨["i", "=", "i", "+", "1"]⟩, ⟨["end"]⟩]⟩

theorem lexical_lifetime_loopVariable :
    ∃ s s', stateAt loopVariable none 4 = some s ∧ stateAt loopVariable none 5 = some s' ∧
      s.env.vars.declarations = [⟨"i", .integer, 0⟩, ⟨"t", .integer, 1⟩] ∧ s'.pc = 1 ∧
      ∃ o r s₀, OpenSince loopVariable none 4 (o :: s'.env.blocks.items) r s₀ ∧
        s'.env.vars.declarations = s₀.env.vars.declarations := by
  refine ⟨_, _, rfl, rfl, rfl, rfl, ?_⟩
  obtain ⟨⟨o, r, s₀, h⟩, hsame⟩ := (lexical_lifetime loopVariable none).2.1 4 _ _ rfl rfl (by decide)
  exact ⟨o, r, s₀, h, hsame o r s₀ h⟩

end LineScript.Machine
