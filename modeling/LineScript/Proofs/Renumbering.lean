import LineScript.Proofs.Rounds

/-!
# LineScript.Proofs.Renumbering — the same blocks at other lines

All control flow goes by line numbers: the openers of the open blocks, the ends that the searches find, the line behind
them.  This module follows one statement through two listings in which the blocks are the same and line `i` of the one
stands for line `f i` of the other.

* `Environment.renumber f`: an environment whose blocks were opened at other lines.
* `Listing.SameBlocks f A B`: the searches of `B` find what those of `A` find.
* `Lands f`: where the two machines go.  A jump behind a line does not say what stands there.
* `Machine.execute_renumbered`: the statement does the same in both.
* `Machine.turn_renumbered_more`, `Machine.turn_renumbered_done`: so does a round, if the lines are the same too.
-/

namespace LineScript

/-! ### Environments -/

/-- A stack with every item replaced. -/
def Stack.map {α : Type} (f : α → α) (s : Stack α) : Stack α :=
  ⟨s.items.map f, s.size, by rw [List.length_map, s.size_eq]⟩

namespace Environment

/-- The environment with other numbers for the lines that opened its blocks. -/
def renumber (f : Nat → Nat) (env : Environment) : Environment :=
  ⟨env.vars, env.blocks.map f⟩

variable (f : Nat → Nat) (env : Environment)

@[simp] theorem vars_renumber : (env.renumber f).vars = env.vars := rfl

@[simp] theorem depth_renumber : (env.renumber f).depth = env.depth := rfl

@[simp] theorem items_renumber : (env.renumber f).blocks.items = env.blocks.items.map f := rfl

@[simp] theorem renumber_id : env.renumber id = env :=
  ext_of_items rfl (by rw [items_renumber, List.map_id])

theorem opener?_renumber (level : Nat) : (env.renumber f).opener? level = (env.opener? level).map f := by
  rw [opener?_eq, opener?_eq, items_renumber, List.getElem?_map]

theorem declare_renumber (name : String) (ty : Ty) :
    (env.renumber f).declare name ty = (env.declare name ty).map (renumber f) := by
  unfold declare
  rw [vars_renumber, depth_renumber]
  cases env.vars.declare name ty env.depth <;> rfl

theorem openBlock_renumber (line : Nat) :
    (env.renumber f).openBlock (f line) = (env.openBlock line).map (renumber f) := by
  unfold openBlock Stack.push
  by_cases h : Stack.limit ≤ env.blocks.size
  · rw [if_pos h, if_pos (show Stack.limit ≤ (env.renumber f).blocks.size from h)]
    rfl
  · rw [if_neg h, if_neg (show ¬ Stack.limit ≤ (env.renumber f).blocks.size from h)]
    rfl

theorem closeBlock_renumber :
    (env.renumber f).closeBlock = env.closeBlock.map fun p => (f p.1, p.2.renumber f) := by
  obtain ⟨vars, ⟨items, n, hn⟩⟩ := env
  cases items with
  | nil => rfl
  | cons line outer => rfl

theorem closeBlocks_renumber (n : Nat) :
    (env.renumber f).closeBlocks n = (env.closeBlocks n).map (renumber f) := by
  induction n generalizing env with
  | zero => rfl
  | succ n ih =>
    rw [closeBlocks, closeBlocks, closeBlock_renumber]
    cases env.closeBlock with
    | error cause => rfl
    | ok p => exact ih p.2

end Environment

/-! ### Listings -/

namespace Listing

/-- Line `i` of `A` stands for line `f i` of `B`: it plays the same part, and the searches from there find the lines
that stand for each other. -/
structure SameBlocks (f : Nat → Nat) (A B : Listing) : Prop where
  role : ∀ i, B.role (f i) = A.role i
  closer? : ∀ i, B.closer? (f i) = (A.closer? i).map f
  elseOrCloser? : ∀ i, B.elseOrCloser? (f i) = (A.elseOrCloser? i).map f

variable {f : Nat → Nat} {A B : Listing}

theorem SameBlocks.closer (h : SameBlocks f A B) (i : Nat) : B.closer (f i) = (A.closer i).map f := by
  rw [Listing.closer, Listing.closer, h.closer? i]
  cases A.closer? i <;> rfl

theorem SameBlocks.elseOrCloser (h : SameBlocks f A B) (i : Nat) :
    B.elseOrCloser (f i) = (A.elseOrCloser i).map f := by
  rw [Listing.elseOrCloser, Listing.elseOrCloser, h.elseOrCloser? i]
  cases A.elseOrCloser? i <;> rfl

theorem SameBlocks.else_iff (h : SameBlocks f A B) (i : Nat) :
    B.keyword? (f i) = some .else_ ↔ A.keyword? i = some .else_ := by
  rw [← role_eq_alternative_iff, ← role_eq_alternative_iff, h.role i]

end Listing

/-! ### Reactions -/

/-- Where the machine goes in the other listing: onto the line that stands for the target, or behind the one that
stands for the line before it. -/
inductive Lands (f : Nat → Nat) : Nat → Nat → Prop
  | onto (i : Nat) : Lands f i (f i)
  | behind (i : Nat) : Lands f (i + 1) (f i + 1)

/-- Moves that lead to lines that stand for each other. -/
inductive Move.Renumbered (f : Nat → Nat) : Move → Move → Prop
  | next : Renumbered f .next .next
  | jump {target target' : Nat} (h : Lands f target target') : Renumbered f (.jump target) (.jump target')
  | halt : Renumbered f .halt .halt

theorem Move.Renumbered.target? {f : Nat → Nat} {move move' : Move} {pc target : Nat}
    (h : move.Renumbered f move') (ht : move.target? pc = some target) :
    ∃ target', move'.target? (f pc) = some target' ∧ Lands f target target' := by
  cases h with
  | next =>
    cases ht
    exact ⟨f pc + 1, rfl, .behind pc⟩
  | @jump _ target' h =>
    cases ht
    exact ⟨target', rfl, h⟩
  | halt => cases ht

/-- Reactions that differ in the numbers of lines only. -/
inductive Reaction.Renumbered (f : Nat → Nat) : Reaction → Reaction → Prop
  | goes {env : Environment} {calls : List Call} {move move' : Move} (h : move.Renumbered f move') :
      Renumbered f ⟨env, calls, .ok move⟩ ⟨env.renumber f, calls, .ok move'⟩
  | fails {env : Environment} {calls : List Call} {cause : Cause} :
      Renumbered f ⟨env, calls, .error cause⟩ ⟨env.renumber f, calls, .error cause⟩

namespace Reaction.Renumbered

variable {f : Nat → Nat} {r r' : Reaction}

theorem env_eq (h : r.Renumbered f r') : r'.env = r.env.renumber f := by
  cases h <;> rfl

theorem calls_eq (h : r.Renumbered f r') : r'.calls = r.calls := by
  cases h <;> rfl

theorem exists_move {move : Move} (h : r.Renumbered f r') (hr : r.outcome = .ok move) :
    ∃ move', r'.outcome = .ok move' ∧ move.Renumbered f move' := by
  cases h with
  | goes h =>
    cases hr
    exact ⟨_, rfl, h⟩
  | fails => cases hr

theorem outcome_of_error {cause : Cause} (h : r.Renumbered f r') (hr : r.outcome = .error cause) :
    r'.outcome = .error cause := by
  cases h with
  | goes h => cases hr
  | fails => exact hr

end Reaction.Renumbered

/-- The fault on another line. -/
def Fault.renumber (f : Nat → Nat) (fault : Fault) : Fault :=
  ⟨fault.cause, fault.line.map f⟩

/-- The event with its fault on another line. -/
def Event.renumber (f : Nat → Nat) : Event → Event
  | finished => finished
  | exited => exited
  | failed fault => failed (fault.renumber f)

namespace Machine

section Execution

variable {f : Nat → Nat} {A B : Listing} {env : Environment}

theorem print_renumbered (name : String) : (print env name).Renumbered f (print (env.renumber f) name) := by
  unfold print
  rw [Environment.vars_renumber]
  cases env.vars.fetch name with
  | error cause => exact .fails
  | ok v => exact .goes .next

theorem assign_renumbered (target : String) (e : Expression) :
    (assign env target e).Renumbered f (assign (env.renumber f) target e) := by
  unfold assign
  rw [Environment.vars_renumber]
  cases env.vars.fetch target with
  | error cause => exact .fails
  | ok v =>
    simp only [ok_bind]
    cases env.vars.assigned v.ty e with
    | error cause => exact .fails
    | ok value =>
      simp only [ok_bind]
      cases env.vars.store target value with
      | error cause => exact .fails
      | ok vars => exact .goes .next

theorem enterIf_renumbered (h : Listing.SameBlocks f A B) (pc : Nat) (e : Expression) :
    (enterIf A pc env e).Renumbered f (enterIf B (f pc) (env.renumber f) e) := by
  unfold enterIf
  rw [Environment.vars_renumber, Environment.openBlock_renumber, h.elseOrCloser]
  cases env.vars.condition e with
  | error cause => exact .fails
  | ok taken =>
    cases env.openBlock pc with
    | error cause => exact .fails
    | ok env' =>
      cases taken with
      | true => exact .goes .next
      | false =>
        cases A.elseOrCloser pc with
        | error cause => exact .fails
        | ok j =>
          by_cases hj : A.keyword? j = some .else_
          · have hj' := (h.else_iff j).mpr hj
            simp only [Except.map, ok_bind, hj, hj', if_true]
            exact .goes (.jump (.behind j))
          · have hj' := mt (h.else_iff j).mp hj
            simp only [Except.map, ok_bind, hj, hj', if_false]
            exact .goes (.jump (.onto j))

theorem enterWhile_renumbered (h : Listing.SameBlocks f A B) (pc : Nat) (e : Expression) :
    (enterWhile A pc env e).Renumbered f (enterWhile B (f pc) (env.renumber f) e) := by
  unfold enterWhile
  rw [Environment.vars_renumber, Environment.openBlock_renumber, h.closer]
  cases env.vars.condition e with
  | error cause => exact .fails
  | ok taken =>
    cases taken with
    | true =>
      cases env.openBlock pc with
      | error cause => exact .fails
      | ok env' => exact .goes .next
    | false =>
      cases A.closer pc with
      | error cause => exact .fails
      | ok j => exact .goes (.jump (.behind j))

/-- Leaving blocks looks up one end and closes the blocks. -/
theorem leaveBlocks_renumbered (h : Listing.SameBlocks f A B) (levels : Nat) (closing : Bool) :
    (leaveBlocks A env levels closing).Renumbered f (leaveBlocks B (env.renumber f) levels closing) := by
  unfold leaveBlocks
  rw [Environment.depth_renumber, Environment.opener?_renumber, Environment.closeBlocks_renumber]
  split
  · exact .fails
  · cases env.opener? (levels - 1) with
    | none => exact .fails
    | some i =>
      simp only [Option.map_some]
      rw [h.closer]
      cases A.closer i with
      | error cause => exact .fails
      | ok j =>
        cases env.closeBlocks (if closing then levels else levels - 1) with
        | error cause => exact .fails
        | ok env' =>
          cases closing with
          | true => exact .goes (.jump (.behind j))
          | false => exact .goes (.jump (.onto j))

theorem leaveNamed_renumbered (h : Listing.SameBlocks f A B) (closing : Bool) (symbol : Option String) :
    (leaveNamed A env closing symbol).Renumbered f (leaveNamed B (env.renumber f) closing symbol) := by
  cases symbol with
  | none => exact leaveBlocks_renumbered h 1 closing
  | some symbol =>
    rw [leaveNamed, leaveNamed, Environment.vars_renumber]
    cases env.vars.levels symbol with
    | error cause => exact .fails
    | ok levels => exact leaveBlocks_renumbered h levels closing

/-! The next two read the keyword of the line that opened the innermost block. -/

theorem leaveElse_renumbered (h : Listing.SameBlocks f A B)
    (hopen : ∀ i ∈ env.blocks.items, B.keyword? (f i) = A.keyword? i) :
    (leaveElse A env).Renumbered f (leaveElse B (env.renumber f)) := by
  unfold leaveElse
  rw [Environment.opener?_renumber]
  cases hi : env.opener? 0 with
  | none => exact .fails
  | some i =>
    simp only [Option.map_some]
    rw [hopen i (List.mem_of_getElem? hi), h.closer]
    split
    · cases A.closer i with
      | error cause => exact .fails
      | ok j => exact .goes (.jump (.onto j))
    · exact .fails

theorem endBlock_renumbered (hopen : ∀ i ∈ env.blocks.items, B.keyword? (f i) = A.keyword? i) :
    (endBlock A env).Renumbered f (endBlock B (env.renumber f)) := by
  have hkey : ((env.renumber f).opener? 0).bind B.keyword? = (env.opener? 0).bind A.keyword? := by
    rw [Environment.opener?_renumber]
    cases hi : env.opener? 0 with
    | none => rfl
    | some i => exact hopen i (List.mem_of_getElem? hi)
  unfold endBlock
  rw [hkey, Environment.closeBlock_renumber]
  split
  · cases env.closeBlock with
    | error cause => exact .fails
    | ok p => exact .goes (.jump (.onto p.1))
  · cases env.closeBlock with
    | error cause => exact .fails
    | ok p => exact .goes .next
  · exact .fails

/-- **A statement does the same at other lines.** -/
theorem execute_renumbered (h : Listing.SameBlocks f A B)
    (hopen : ∀ i ∈ env.blocks.items, B.keyword? (f i) = A.keyword? i) (pc : Nat) (st : Statement) :
    (execute A pc env st).Renumbered f (execute B (f pc) (env.renumber f) st) := by
  cases st with
  | blank => exact .goes .next
  | exit => exact .goes .halt
  | declare ty name =>
    rw [execute, execute, Environment.declare_renumber]
    cases env.declare name ty with
    | error cause => exact .fails
    | ok env' => exact .goes .next
  | push =>
    rw [execute, execute, Environment.openBlock_renumber]
    cases env.openBlock pc with
    | error cause => exact .fails
    | ok env' => exact .goes .next
  | pop =>
    rw [execute, execute, Environment.closeBlock_renumber]
    cases env.closeBlock with
    | error cause => exact .fails
    | ok p => exact .goes .next
  | print name => exact print_renumbered name
  | if_ e => exact enterIf_renumbered h pc e
  | else_ => exact leaveElse_renumbered h hopen
  | while_ e => exact enterWhile_renumbered h pc e
  | end_ => exact endBlock_renumbered hopen
  | break_ levels => exact leaveNamed_renumbered h true levels
  | continue_ levels => exact leaveNamed_renumbered h false levels
  | assign target e => exact assign_renumbered target e
  | untyped | unrecognized => exact .fails

end Execution

/-! ### Rounds -/

/-- The texts that calls print. -/
def printed (calls : List Call) : List String :=
  calls.filterMap fun
    | .print text => some text
    | .error _ => none

theorem printed_append (calls calls' : List Call) : printed (calls ++ calls') = printed calls ++ printed calls' :=
  List.filterMap_append

theorem printed_report (calls : List Call) (text : String) : printed (calls ++ [.error text]) = printed calls := by
  rw [printed_append]
  exact List.append_nil _

section Rounds

variable {f : Nat → Nat} {A B : Listing} {s s' : State}

theorem execute_renumbered_of_lines (h : Listing.SameBlocks f A B) (hlines : ∀ i, B.line? (f i) = A.line? i)
    (hpc : s'.pc = f s.pc) (henv : s'.env = s.env.renumber f) (st : Statement) :
    (execute A s.pc s.env st).Renumbered f (execute B s'.pc s'.env st) := by
  rw [hpc, henv]
  refine execute_renumbered h ?_ s.pc st
  intro i _
  rw [Listing.keyword?, hlines i]
  rfl

/-- A round that goes on, at other lines. -/
theorem turn_renumbered_more {s₁ : State} {calls : List Call} (h : Listing.SameBlocks f A B)
    (hlines : ∀ i, B.line? (f i) = A.line? i) (hpc : s'.pc = f s.pc) (henv : s'.env = s.env.renumber f)
    (ht : turn A none s = .more s₁ calls) :
    ∃ s₁', turn B none s' = .more s₁' calls ∧ Lands f s₁.pc s₁'.pc ∧ s₁'.env = s₁.env.renumber f := by
  obtain ⟨line, move, hline, -, ho, rfl, htarget, -, henv₁⟩ := turn_eq_more ht
  have hex := execute_renumbered_of_lines h hlines hpc henv (.ofLine line)
  have hline' : B.line? s'.pc = some line := by rw [hpc, hlines, hline]
  obtain ⟨move', ho', hmove⟩ := hex.exists_move ho
  obtain ⟨target', htarget', hlands⟩ := hmove.target? htarget
  rw [← hpc] at htarget'
  rw [henv₁, ← hex.env_eq, ← hex.calls_eq]
  exact ⟨_, turn_of_target hline' rfl ho' htarget', hlands, rfl⟩

/-- A round that ends the run, at other lines. -/
theorem turn_renumbered_done {event : Event} {last : List Call} (h : Listing.SameBlocks f A B)
    (hlines : ∀ i, B.line? (f i) = A.line? i) (hsize : B.size = f A.size) (hpc : s'.pc = f s.pc)
    (henv : s'.env = s.env.renumber f) (ht : turn A none s = .done event last) :
    ∃ last', turn B none s' = .done (event.renumber f) last' ∧ printed last' = printed last := by
  have hline' : B.line? s'.pc = A.line? s.pc := by rw [hpc, hlines]
  have hdepth : s'.env.depth = s.env.depth := by rw [henv, Environment.depth_renumber]
  have hex := execute_renumbered_of_lines h hlines hpc henv
  have hend : ∃ last', Ending B none s' (event.renumber f) last' ∧ printed last' = printed last := by
    cases ending_of_turn ht with
    | finished hle hd =>
      rw [Listing.line?_eq_none_iff.mpr hle, Listing.line?_eq_none_iff] at hline'
      exact ⟨_, .finished hline' (hdepth.trans hd), rfl⟩
    | unterminated hle hd =>
      rw [Listing.line?_eq_none_iff.mpr hle, Listing.line?_eq_none_iff] at hline'
      have hevent : Event.renumber f (.failed ⟨.unterminatedScope, some A.size⟩) =
          .failed ⟨.unterminatedScope, some B.size⟩ := by
        rw [hsize]
        rfl
      rw [hevent]
      exact ⟨_, .unterminated hline' (hdepth ▸ hd), rfl⟩
    | exhausted hline hlim => cases hlim
    | @exited line hline hlim ho =>
      obtain ⟨move', ho', hmove⟩ := (hex (.ofLine line)).exists_move ho
      cases hmove
      refine ⟨_, .exited (hline'.trans hline) rfl ho', ?_⟩
      rw [(hex (.ofLine line)).calls_eq]
    | @failed line cause hline hlim ho =>
      have hevent : Event.renumber f (.failed ⟨cause, some s.pc⟩) = .failed ⟨cause, some s'.pc⟩ := by
        rw [hpc]
        rfl
      rw [hevent]
      refine ⟨_, .failed (hline'.trans hline) rfl ((hex (.ofLine line)).outcome_of_error ho), ?_⟩
      rw [printed_report, printed_report, (hex (.ofLine line)).calls_eq]
  obtain ⟨last', hend, hprinted⟩ := hend
  exact ⟨last', turn_of_ending hend, hprinted⟩

end Rounds

end Machine

end LineScript
