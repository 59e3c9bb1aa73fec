import LineScript.Environment
import Mathlib.Data.List.DropRight

/-!
# LineScript.Proofs.Scoping — the table of variables and the depth of blocks

Assignments change values only, so the table is seen through its declarations: the name, the type and the depth of
each live variable, oldest first.

* `Variables.WellScoped`: names are valid and distinct, depths never decrease along the table and stay within the
  number of open blocks.
* `Variables.declarations_declare`, `declarations_store`, `declarations_dispose`: the table through its three
  operations.
* `Variables.dispose_eq_of_split`: what a depth splits the table into is what disposal keeps and drops.
* `Environment.openBlock_eq_ok_iff`, `closeBlock_eq_ok_iff`, `closeBlocks_eq_ok_iff`: opening and closing blocks.
* `Environment.Change`: how one line can change the environment.
-/

namespace LineScript

/-- What a variable keeps for its whole life. -/
structure Declaration where
  name : String
  ty : Ty
  scope : Nat
deriving DecidableEq, Repr

/-- A variable without its value. -/
def Variable.declaration (v : Variable) : Declaration :=
  ⟨v.name, v.ty, v.scope⟩

namespace Variables

/-- The declarations of the live variables, oldest first. -/
def declarations (vars : Variables) : List Declaration :=
  vars.toList.map Variable.declaration

/-- The table of a script with `depth` open blocks. -/
structure WellScoped (vars : Variables) (depth : Nat) : Prop where
  distinct : (vars.declarations.map Declaration.name).Nodup
  valid : ∀ d ∈ vars.declarations, Name.isWellFormed d.name = true ∧ Name.isReserved d.name = false
  ordered : vars.declarations.Pairwise fun d e => d.scope ≤ e.scope
  bounded : ∀ d ∈ vars.declarations, d.scope ≤ depth

variable {vars vars' : Variables}

theorem length_declarations (vars : Variables) : vars.declarations.length = vars.size := by
  simp [declarations, toList, size]

theorem reverse_declarations (vars : Variables) :
    vars.declarations.reverse = vars.newestFirst.map Variable.declaration := by
  simp [declarations, toList]

theorem find?_eq_none_iff {name : String} :
    vars.find? name = none ↔ name ∉ vars.declarations.map Declaration.name := by
  simp [find?, declarations, toList, Variable.declaration, List.find?_eq_none]

/-! ### The operations -/

theorem declarations_declare {name : String} {ty : Ty} {scope : Nat}
    (h : vars.declare name ty scope = .ok vars') :
    vars'.declarations = vars.declarations ++ [⟨name, ty, scope⟩] := by
  simp [declarations, toList_of_declare_eq_ok h, Variable.declaration, Variable.ty]

/-- A declaration succeeds only for a new, valid name. -/
theorem valid_of_declare {name : String} {ty : Ty} {scope : Nat} (h : vars.declare name ty scope = .ok vars') :
    name ∉ vars.declarations.map Declaration.name ∧ Name.isWellFormed name = true ∧
      Name.isReserved name = false := by
  unfold declare at h
  split at h
  · cases h
  · rename_i hfind
    split at h
    · cases h
    · rename_i hres
      split at h
      · cases h
      · rename_i hwf
        exact ⟨find?_eq_none_iff.mp (by simpa using hfind), by simpa using hwf, by simpa using hres⟩

theorem map_declaration_replaceValue {name : String} {value : Value} {v : Variable} {l : List Variable}
    (hf : l.find? (fun v => v.name == name) = some v) (ht : v.ty = value.ty) :
    (replaceValue name value l).map Variable.declaration = l.map Variable.declaration := by
  induction l with
  | nil => rfl
  | cons w l ih =>
    rw [replaceValue]
    split
    · rename_i hw
      simp only [List.find?_cons, hw, Option.some.injEq] at hf
      subst hf
      have hd : Variable.declaration ⟨w.name, w.scope, value⟩ = w.declaration := by
        rw [Variable.declaration, Variable.declaration, ht]
        rfl
      rw [List.map_cons, List.map_cons, hd]
    · rename_i hw
      simp only [List.find?_cons, hw] at hf
      rw [List.map_cons, ih hf, List.map_cons]

/-- An assignment keeps every declaration. -/
theorem declarations_store {name : String} {value : Value} (h : vars.store name value = .ok vars') :
    vars'.declarations = vars.declarations := by
  unfold store at h
  split at h
  · rename_i v hf
    split at h
    · rename_i ht
      cases h
      apply List.reverse_injective
      rw [reverse_declarations, reverse_declarations]
      exact map_declaration_replaceValue hf ht
    · cases h
  · cases h

/-- Disposal drops a run at the end of the table. -/
theorem declarations_dispose (vars : Variables) (depth : Nat) :
    (vars.dispose depth).declarations = vars.declarations.rdropWhile fun d => decide (depth ≤ d.scope) := by
  apply List.reverse_injective
  rw [List.rdropWhile, List.reverse_reverse, reverse_declarations, reverse_declarations, dispose,
    List.dropWhile_map]
  rfl

theorem dispose_dispose_of_le {d e : Nat} (hde : d ≤ e) : (vars.dispose e).dispose d = vars.dispose d := by
  unfold dispose
  congr 1
  induction vars.newestFirst with
  | nil => rfl
  | cons v l ih =>
    by_cases he : e ≤ v.scope
    · have hd : d ≤ v.scope := by omega
      simp only [List.dropWhile_cons, he, hd, decide_true, if_true]
      exact ih
    · simp only [List.dropWhile_cons, he, decide_false, Bool.false_eq_true, if_false]

/-- A table that a depth splits into an older and a newer part: disposal keeps just the older one. -/
theorem dispose_eq_of_split {depth : Nat} {older newer : List Declaration}
    (h : vars.declarations = older ++ newer) (ho : ∀ d ∈ older, d.scope < depth)
    (hn : ∀ d ∈ newer, depth ≤ d.scope) : vars.dispose depth = ⟨vars.newestFirst.drop newer.length⟩ := by
  have hrev : vars.newestFirst.map Variable.declaration = newer.reverse ++ older.reverse := by
    rw [← reverse_declarations, h, List.reverse_append]
  have htake : (vars.newestFirst.take newer.length).map Variable.declaration = newer.reverse := by
    rw [List.map_take, hrev, List.take_left' (by simp)]
  have hdrop : (vars.newestFirst.drop newer.length).map Variable.declaration = older.reverse := by
    rw [List.map_drop, hrev, List.drop_left' (by simp)]
  have hpos : ∀ v ∈ vars.newestFirst.take newer.length, decide (depth ≤ v.scope) = true := by
    intro v hv
    have hd : v.declaration ∈ newer.reverse := htake ▸ List.mem_map_of_mem hv
    exact decide_eq_true (hn _ (List.mem_reverse.mp hd))
  unfold dispose
  rw [← List.take_append_drop newer.length vars.newestFirst, List.dropWhile_append_of_pos hpos,
    List.take_append_drop]
  cases hl : vars.newestFirst.drop newer.length with
  | nil => rfl
  | cons v l =>
    have hd : v.declaration ∈ older.reverse := by rw [← hdrop, hl]; simp
    have hv : ¬ depth ≤ v.scope := Nat.not_le.mpr (ho _ (List.mem_reverse.mp hd))
    rw [List.dropWhile_cons_of_neg (by simpa using hv)]

theorem declarations_dispose_of_split {depth : Nat} {older newer : List Declaration}
    (h : vars.declarations = older ++ newer) (ho : ∀ d ∈ older, d.scope < depth)
    (hn : ∀ d ∈ newer, depth ≤ d.scope) : (vars.dispose depth).declarations = older := by
  apply List.reverse_injective
  rw [reverse_declarations, dispose_eq_of_split h ho hn, List.map_drop, ← reverse_declarations, h,
    List.reverse_append, List.drop_left' (by simp)]

/-! ### Keeping the table well scoped -/

theorem wellScoped_empty : ({} : Variables).WellScoped 0 :=
  ⟨by simp [declarations, toList], by simp [declarations, toList], by simp [declarations, toList],
    by simp [declarations, toList]⟩

theorem WellScoped.mono {d e : Nat} (h : vars.WellScoped d) (hde : d ≤ e) : vars.WellScoped e :=
  ⟨h.distinct, h.valid, h.ordered, fun x hx => Nat.le_trans (h.bounded x hx) hde⟩

theorem WellScoped.of_declarations_eq {depth : Nat} (h : vars.WellScoped depth)
    (hd : vars'.declarations = vars.declarations) : vars'.WellScoped depth :=
  ⟨hd ▸ h.distinct, hd ▸ h.valid, hd ▸ h.ordered, hd ▸ h.bounded⟩

theorem WellScoped.declare {depth : Nat} {name : String} {ty : Ty} (h : vars.WellScoped depth)
    (hd : vars.declare name ty depth = .ok vars') : vars'.WellScoped depth := by
  have heq := declarations_declare hd
  obtain ⟨hnew, hwf, hres⟩ := valid_of_declare hd
  refine ⟨?_, ?_, ?_, ?_⟩
  · rw [heq, List.map_append, List.nodup_append]
    refine ⟨h.distinct, by simp, ?_⟩
    rintro a ha b hb rfl
    simp only [List.map_cons, List.map_nil, List.mem_singleton] at hb
    exact hnew (hb ▸ ha)
  · intro x hx
    rw [heq, List.mem_append, List.mem_singleton] at hx
    rcases hx with hx | rfl
    · exact h.valid x hx
    · exact ⟨hwf, hres⟩
  · rw [heq, List.pairwise_append]
    refine ⟨h.ordered, by simp, ?_⟩
    intro x hx y hy
    rw [List.mem_singleton] at hy
    subst hy
    exact h.bounded x hx
  · intro x hx
    rw [heq, List.mem_append, List.mem_singleton] at hx
    rcases hx with hx | rfl
    · exact h.bounded x hx
    · exact Nat.le_refl depth

/-- The newest declaration that is kept lies below the depth, and so do all older ones. -/
theorem scope_lt_of_mem_rdropWhile {depth : Nat} {l : List Declaration}
    (h : l.Pairwise fun d e => d.scope ≤ e.scope) :
    ∀ d ∈ l.rdropWhile (fun d => decide (depth ≤ d.scope)), d.scope < depth := by
  induction l using List.reverseRecOn with
  | nil => simp
  | append_singleton l e ih =>
    rw [List.pairwise_append] at h
    intro d hd
    by_cases he : depth ≤ e.scope
    · rw [List.rdropWhile_concat_pos _ _ _ (by simpa using he)] at hd
      exact ih h.1 d hd
    · rw [List.rdropWhile_concat_neg _ _ _ (by simpa using he), List.mem_append, List.mem_singleton] at hd
      rcases hd with hd | rfl
      · have := h.2.2 d hd e (by simp)
        omega
      · omega

theorem WellScoped.dispose {depth d : Nat} (h : vars.WellScoped depth) : (vars.dispose (d + 1)).WellScoped d := by
  have hpre : (vars.dispose (d + 1)).declarations <+: vars.declarations := by
    rw [declarations_dispose]
    exact List.rdropWhile_prefix _ _
  refine ⟨h.distinct.sublist (hpre.sublist.map _), fun x hx => h.valid x (hpre.subset hx),
    h.ordered.sublist hpre.sublist, ?_⟩
  intro x hx
  rw [declarations_dispose] at hx
  exact Nat.lt_succ_iff.mp (scope_lt_of_mem_rdropWhile h.ordered x hx)

end Variables

namespace Environment

/-! ### Opening and closing blocks -/

variable {env env' : Environment}

theorem depth_eq_length (env : Environment) : env.depth = env.blocks.items.length :=
  env.blocks.size_eq

theorem opener?_eq (env : Environment) (level : Nat) : env.opener? level = env.blocks.items[level]? := rfl

theorem ext_of_items (hv : env.vars = env'.vars) (hb : env.blocks.items = env'.blocks.items) : env = env' := by
  cases env with
  | mk vars blocks =>
    cases env' with
    | mk vars' blocks' =>
      cases hv
      cases Stack.ext_items hb
      rfl

theorem depth_eq_of_items (h : env'.blocks.items = env.blocks.items) : env'.depth = env.depth := by
  rw [depth_eq_length, depth_eq_length, h]

theorem declare_eq_ok_iff {name : String} {ty : Ty} :
    env.declare name ty = .ok env' ↔
      env.vars.declare name ty env.depth = .ok env'.vars ∧ env'.blocks.items = env.blocks.items := by
  unfold declare
  constructor
  · intro h
    split at h
    · rename_i vars hv
      cases h
      exact ⟨hv, rfl⟩
    · cases h
  · rintro ⟨hv, hb⟩
    rw [hv]
    exact congrArg Except.ok (ext_of_items rfl hb.symm)

theorem openBlock_eq_ok_iff {line : Nat} :
    env.openBlock line = .ok env' ↔
      env.depth < Stack.limit ∧ env'.vars = env.vars ∧ env'.blocks.items = line :: env.blocks.items := by
  unfold openBlock
  constructor
  · intro h
    split at h
    · rename_i blocks hb
      cases h
      obtain ⟨hlt, hi⟩ := Stack.push_eq_ok_iff.mp hb
      exact ⟨hlt, rfl, hi⟩
    · cases h
  · rintro ⟨hlt, hv, hi⟩
    rw [Stack.push_eq_ok_iff.mpr ⟨hlt, hi⟩]
    exact congrArg Except.ok (ext_of_items hv.symm rfl)

theorem depth_of_openBlock {line : Nat} (h : env.openBlock line = .ok env') : env'.depth = env.depth + 1 := by
  rw [depth_eq_length, depth_eq_length, (openBlock_eq_ok_iff.mp h).2.2, List.length_cons]

theorem vars_of_openBlock {line : Nat} (h : env.openBlock line = .ok env') : env'.vars = env.vars :=
  (openBlock_eq_ok_iff.mp h).2.1

theorem opener?_of_openBlock {line : Nat} (h : env.openBlock line = .ok env') : env'.opener? 0 = some line := by
  rw [opener?_eq, (openBlock_eq_ok_iff.mp h).2.2, List.getElem?_cons_zero]

theorem closeBlock_eq_ok_iff {line : Nat} :
    env.closeBlock = .ok (line, env') ↔
      env.blocks.items = line :: env'.blocks.items ∧ env'.vars = env.vars.dispose env.depth := by
  unfold closeBlock
  constructor
  · intro h
    split at h
    · rename_i line' blocks hb
      cases h
      exact ⟨Stack.pop_eq_ok_iff.mp hb, rfl⟩
    · cases h
  · rintro ⟨hi, hv⟩
    rw [Stack.pop_eq_ok_iff.mpr hi]
    exact congrArg (fun e => Except.ok (line, e)) (ext_of_items hv.symm rfl)

theorem opener?_of_closeBlock {line : Nat} (h : env.closeBlock = .ok (line, env')) : env.opener? 0 = some line := by
  rw [opener?_eq, (closeBlock_eq_ok_iff.mp h).1, List.getElem?_cons_zero]

theorem closeBlock_of_nil (h : env.blocks.items = []) : env.closeBlock = .error .unexpectedEndOfScope := by
  cases env with
  | mk vars blocks =>
    cases blocks with
    | mk items n hn =>
      cases h
      rfl

theorem exists_closeBlock {line : Nat} {outer : List Nat} (h : env.blocks.items = line :: outer) :
    ∃ env', env.closeBlock = .ok (line, env') ∧ env'.blocks.items = outer ∧
      env'.vars = env.vars.dispose env.depth :=
  ⟨⟨env.vars.dispose env.depth, ⟨outer, outer.length, rfl⟩⟩, closeBlock_eq_ok_iff.mpr ⟨h, rfl⟩, rfl, rfl⟩

/-- Closing `n` blocks fails only if fewer are open.  It drops the innermost `n` and all that was declared in them. -/
theorem closeBlocks_eq_ok_iff {n : Nat} :
    env.closeBlocks n = .ok env' ↔
      n ≤ env.depth ∧ env'.blocks.items = env.blocks.items.drop n ∧
        env'.vars = if n = 0 then env.vars else env.vars.dispose (env.depth + 1 - n) := by
  induction n generalizing env with
  | zero =>
    rw [closeBlocks]
    constructor
    · intro h
      cases h
      exact ⟨Nat.zero_le _, rfl, rfl⟩
    · rintro ⟨-, hi, hv⟩
      exact congrArg Except.ok (ext_of_items hv.symm hi.symm)
  | succ n ih =>
    rw [closeBlocks]
    cases hitems : env.blocks.items with
    | nil =>
      rw [closeBlock_of_nil hitems, depth_eq_length, hitems]
      simp
    | cons line outer =>
      obtain ⟨env₁, hc, rfl, hv₁⟩ := exists_closeBlock hitems
      have hd : env.depth = env₁.depth + 1 := by
        rw [depth_eq_length, depth_eq_length, hitems, List.length_cons]
      have hle : n ≤ env₁.depth ↔ n + 1 ≤ env.depth := by omega
      rw [hc]
      simp only [ih, hle, List.drop_succ_cons, Nat.add_eq_zero_iff, Nat.one_ne_zero, and_false, if_false]
      refine and_congr_right fun hn => and_congr_right fun _ => ?_
      split
      · rename_i hz
        rw [hv₁, hz, Nat.zero_add, Nat.add_sub_cancel]
      · rename_i hz
        rw [hv₁, Variables.dispose_dispose_of_le (by omega),
          show env₁.depth + 1 - n = env.depth + 1 - (n + 1) by omega]

theorem exists_closeBlocks {n : Nat} (h : n ≤ env.depth) : ∃ env', env.closeBlocks n = .ok env' :=
  ⟨⟨if n = 0 then env.vars else env.vars.dispose (env.depth + 1 - n), ⟨env.blocks.items.drop n, _, rfl⟩⟩,
    closeBlocks_eq_ok_iff.mpr ⟨h, rfl, rfl⟩⟩

theorem depth_of_closeBlocks {n : Nat} (h : env.closeBlocks n = .ok env') : env'.depth = env.depth - n := by
  rw [depth_eq_length, depth_eq_length, (closeBlocks_eq_ok_iff.mp h).2.1, List.length_drop]

theorem closeBlocks_one {line : Nat} (h : env.closeBlock = .ok (line, env')) : env.closeBlocks 1 = .ok env' := by
  rw [closeBlocks, h]
  rfl

/-- How one line can change the environment: it assigns or does nothing, declares a variable, opens one block, or
closes some blocks. -/
inductive Change (pc : Nat) (env : Environment) : Environment → Prop
  | keep {env' : Environment} (hb : env'.blocks.items = env.blocks.items)
      (hv : env'.vars.declarations = env.vars.declarations) : Change pc env env'
  | declare {env' : Environment} {name : String} {ty : Ty} (h : env.declare name ty = .ok env') :
      Change pc env env'
  | enter {env' : Environment} (h : env.openBlock pc = .ok env') : Change pc env env'
  | leave {env' : Environment} {n : Nat} (h : env.closeBlocks (n + 1) = .ok env') : Change pc env env'

/-- Only opening a block goes deeper. -/
theorem Change.openBlock_of_depth_lt {pc : Nat} (h : Change pc env env') (hd : env.depth < env'.depth) :
    env.openBlock pc = .ok env' := by
  cases h with
  | keep hb _ => rw [depth_eq_of_items hb] at hd; omega
  | declare h => rw [depth_eq_of_items (declare_eq_ok_iff.mp h).2] at hd; omega
  | enter h => exact h
  | leave h => rw [depth_of_closeBlocks h] at hd; omega

/-- Only closing blocks goes less deep. -/
theorem Change.closeBlocks_of_depth_lt {pc : Nat} (h : Change pc env env') (hd : env'.depth < env.depth) :
    ∃ n, env.closeBlocks (n + 1) = .ok env' := by
  cases h with
  | keep hb _ => rw [depth_eq_of_items hb] at hd; omega
  | declare h => rw [depth_eq_of_items (declare_eq_ok_iff.mp h).2] at hd; omega
  | enter h => rw [depth_of_openBlock h] at hd; omega
  | leave h => exact ⟨_, h⟩

/-- Every change keeps the table well scoped. -/
theorem Change.wellScoped {pc : Nat} (h : Change pc env env') (hv : env.vars.WellScoped env.depth) :
    env'.vars.WellScoped env'.depth := by
  cases h with
  | keep hb hd =>
    rw [depth_eq_of_items hb]
    exact hv.of_declarations_eq hd
  | declare h =>
    obtain ⟨hd, hb⟩ := declare_eq_ok_iff.mp h
    rw [depth_eq_of_items hb]
    exact hv.declare hd
  | enter h =>
    rw [(openBlock_eq_ok_iff.mp h).2.1, depth_of_openBlock h]
    exact hv.mono (Nat.le_succ _)
  | @leave n h =>
    obtain ⟨hn, -, hvars⟩ := closeBlocks_eq_ok_iff.mp h
    rw [if_neg (Nat.succ_ne_zero n)] at hvars
    rw [hvars, depth_of_closeBlocks h, show env.depth + 1 - (n + 1) = env.depth - (n + 1) + 1 by omega]
    exact hv.dispose

end Environment

end LineScript
