import LineScript.Proofs.Transitions

/-!
# LineScript.Proofs.Structured — structured programs and their meaning

A structured program is a list of constructs, and a construct is a simple line or a block with the constructs inside
it.  Its meaning is computed on this tree, without positions to jump to and without a stack of open blocks.

* `Construct`, `Construct.lines`, `flatten`: the trees, and the listing that writes one down.
* `Signal`, `Result`: how a construct ends.  A `break` or `continue` is a signal on its way out, which every block on
  the way takes one level further.
* `Construct.eval`, `evalAll`: the meaning of a construct and of a list of them.  Only the passes of a loop use up
  fuel.
* `evaluate`: the meaning of a program: how it ends and the calls it makes.
* `Variables.Grows`, `grows_of_evalAll`: a list of constructs adds declarations of its own depth and keeps all others.
-/

namespace LineScript

/-! ### Programs -/

/-- The line does not start with one of the words that make up blocks. -/
def Line.isSimple (line : Line) : Bool :=
  match line.tokens with
  | [] => true
  | word :: _ => word ∉ ["push", "pop", "if", "else", "while", "end"]

/-- The tokens that an expression is read from. -/
def Expression.tokens : Expression → List String
  | symbol a => [a]
  | unary op a => [op, a]
  | binary l op r => [l, op, r]

/-- A statement of a structured program. -/
inductive Construct
  | simple (line : Line) (h : line.isSimple = true)
  | push (body : List Construct)
  | if_ (test : Expression) (yes : List Construct)
  | ifElse (test : Expression) (yes no : List Construct)
  | while_ (test : Expression) (body : List Construct)

/-- The line that consists of a keyword and the tokens after it. -/
def Keyword.line (k : Keyword) (tokens : List String) : Line :=
  ⟨k.text :: tokens⟩

mutual

/-- The lines that a construct is written as. -/
def Construct.lines : Construct → List Line
  | .simple line _ => [line]
  | .push body => Keyword.push.line [] :: (linesOf body ++ [Keyword.pop.line []])
  | .if_ test yes => Keyword.if_.line test.tokens :: (linesOf yes ++ [Keyword.end_.line []])
  | .ifElse test yes no =>
    Keyword.if_.line test.tokens ::
      (linesOf yes ++ Keyword.else_.line [] :: linesOf no ++ [Keyword.end_.line []])
  | .while_ test body => Keyword.while_.line test.tokens :: (linesOf body ++ [Keyword.end_.line []])

/-- The lines that constructs are written as, one after the other. -/
def linesOf : List Construct → List Line
  | [] => []
  | c :: rest => c.lines ++ linesOf rest

end

/-- The listing that a structured program is written as. -/
def flatten (program : List Construct) : Listing :=
  ⟨(linesOf program).toArray⟩

/-! ### Results -/

/-- How a construct ends: normally, with a `break` (`closing`) or `continue` that has `levels` blocks to go, with
`exit`, or with a fault. -/
inductive Signal
  | done
  | leave (levels : Nat) (closing : Bool)
  | exit
  | fail (fault : Fault)
deriving DecidableEq

/-- The signal outside of a block that ends with it.  The last block that a `break` or `continue` names is left, and
that is all. -/
def Signal.outward : Signal → Signal
  | leave (n + 2) closing => leave (n + 1) closing
  | leave _ _ => done
  | signal => signal

/-- The body of a loop that ends so is over, and the condition is tested again. -/
def Signal.endsPass : Signal → Bool
  | done | leave 1 false => true
  | _ => false

/-- What a construct leaves: its signal, the variables and the calls it makes. -/
structure Result where
  signal : Signal
  vars : Variables
  calls : List Call := []

/-- The oldest `count` variables. -/
def Variables.keepOldest (vars : Variables) (count : Nat) : Variables :=
  ⟨vars.newestFirst.drop (vars.size - count)⟩

namespace Result

/-- The result with calls made before. -/
def behind (calls : List Call) (r : Result) : Result :=
  { r with calls := calls ++ r.calls }

/-- The result of a block that was entered with `count` variables: whatever was declared in it is dropped. -/
def close (count : Nat) (r : Result) : Result :=
  ⟨r.signal.outward, r.vars.keepOldest count, r.calls⟩

/-- Goes on after a normal end, and keeps any other result. -/
def andThen (r : Result) (next : Variables → Option Result) : Option Result :=
  if r.signal = .done then (next r.vars).map (behind r.calls) else some r

/-- A fault on a line. -/
def failed (line : Nat) (vars : Variables) (cause : Cause) : Result :=
  { signal := .fail ⟨cause, some line⟩, vars }

/-- The event that ends a program, with its calls and the report of a fault.  A `break` or `continue` does not get
that far. -/
def ending? (r : Result) : Option (Event × List Call) :=
  match r.signal with
  | .done => some (.finished, r.calls)
  | .exit => some (.exited, r.calls)
  | .fail fault => some (.failed fault, r.calls ++ [.error fault.report])
  | .leave _ _ => none

end Result

/-! ### Evaluation -/

/-- The number of blocks that a `break` or `continue` names; without a symbol it is one. -/
def Variables.levelsOf (vars : Variables) : Option String → Except Cause Nat
  | none => .ok 1
  | some symbol => vars.levels symbol

/-- A `break` or `continue` inside `depth` blocks. -/
def leaving (depth : Nat) (vars : Variables) (closing : Bool) (symbol : Option String) : Except Cause Result := do
  let levels ← vars.levelsOf symbol
  if levels ≤ depth then return { signal := .leave levels closing, vars } else throw .unexpectedEndOfScope

/-- What a statement of a simple line does inside `depth` blocks. -/
def Statement.perform (depth : Nat) (vars : Variables) : Statement → Except Cause Result
  | blank => return { signal := .done, vars }
  | exit => return { signal := .exit, vars }
  | declare ty name => do return { signal := .done, vars := ← vars.declare name ty depth }
  | untyped => throw (.internalError "DECLARATION WORD")
  | print name => do
    let v ← vars.fetch name
    return { signal := .done, vars, calls := [.print v.value.text, .newline] }
  | assign target e => do
    let v ← vars.fetch target
    let value ← vars.assigned v.ty e
    return { signal := .done, vars := ← vars.store target value }
  | break_ levels => leaving depth vars true levels
  | continue_ levels => leaving depth vars false levels
  | unrecognized text => throw (.unrecognizedCommand text)
  -- a simple line is none of these
  | push | pop | if_ _ | else_ | while_ _ | end_ => throw .unexpectedEndOfScope

/-- A simple line. -/
def evalSimple (depth line : Nat) (vars : Variables) (l : Line) : Result :=
  match (Statement.ofLine l).perform depth vars with
  | .ok r => r
  | .error cause => .failed line vars cause

/-- Enters one more block at a line inside `depth` others, which fails if there are too many. -/
def entering (depth line : Nat) (vars : Variables) (inside : Option Result) : Option Result :=
  if Stack.limit ≤ depth then some (.failed line vars (.outOfMemory "SCOPES NESTED TOO DEEP")) else inside

/-- A block at a line inside `depth` others, and what happens inside it. -/
def inBlock (depth line : Nat) (vars : Variables) (inside : Option Result) : Option Result :=
  entering depth line vars (inside.map (.close vars.size))

/-- An `if`: one of two bodies, which runs in a block of its own. -/
def choose (depth line : Nat) (vars : Variables) (test : Expression) (yes no : Option Result) : Option Result :=
  match vars.condition test with
  | .error cause => some (.failed line vars cause)
  | .ok taken => inBlock depth line vars (if taken then yes else no)

/-- A `while`: passes through its body, each in a block of its own, as long as the condition holds.  The result is
`none` after too many passes. -/
def passes (depth line : Nat) (test : Expression) (body : Variables → Option Result) :
    Nat → Variables → Option Result
  | 0, _ => none
  | fuel + 1, vars =>
    match vars.condition test with
    | .error cause => some (.failed line vars cause)
    | .ok false => some { signal := .done, vars }
    | .ok true =>
      entering depth line vars <|
        (body vars).bind fun r =>
          if r.signal.endsPass then
            (passes depth line test body fuel (r.vars.keepOldest vars.size)).map (.behind r.calls)
          else some (r.close vars.size)

mutual

/-- The meaning of a construct that starts at a line and stands inside `depth` blocks. -/
def Construct.eval (fuel depth line : Nat) (vars : Variables) : Construct → Option Result
  | .simple l _ => some (evalSimple depth line vars l)
  | .push body => inBlock depth line vars (evalAll fuel (depth + 1) (line + 1) vars body)
  | .if_ test yes =>
    choose depth line vars test (evalAll fuel (depth + 1) (line + 1) vars yes) (some { signal := .done, vars })
  | .ifElse test yes no =>
    choose depth line vars test (evalAll fuel (depth + 1) (line + 1) vars yes)
      (evalAll fuel (depth + 1) (line + 1 + (linesOf yes).length + 1) vars no)
  | .while_ test body =>
    passes depth line test (fun vars => evalAll fuel (depth + 1) (line + 1) vars body) fuel vars

/-- The meaning of constructs one after the other. -/
def evalAll (fuel depth line : Nat) (vars : Variables) : List Construct → Option Result
  | [] => some { signal := .done, vars }
  | c :: rest =>
    (c.eval fuel depth line vars).bind fun r =>
      r.andThen fun vars => evalAll fuel depth (line + c.lines.length) vars rest

end

/-- The meaning of a program: how it ends and the calls it makes; `none` if a loop has not ended after `fuel`
passes. -/
def evaluate (fuel : Nat) (program : List Construct) : Option (Event × List Call) :=
  (evalAll fuel 0 0 {} program).bind Result.ending?

/-! ### The declarations that a construct leaves -/

/-- The later table holds the declarations of the earlier one, and behind them only such of the given depth. -/
def Variables.Grows (vars : Variables) (depth : Nat) (vars' : Variables) : Prop :=
  ∃ newer, vars'.declarations = vars.declarations ++ newer ∧ ∀ d ∈ newer, d.scope = depth

namespace Variables

variable {vars vars' vars'' : Variables} {depth : Nat}

theorem Grows.of_declarations_eq (h : vars'.declarations = vars.declarations) : vars.Grows depth vars' :=
  ⟨[], by rw [h, List.append_nil], by simp⟩

theorem Grows.trans (h : vars.Grows depth vars') (h' : vars'.Grows depth vars'') : vars.Grows depth vars'' := by
  obtain ⟨newer, hd, hs⟩ := h
  obtain ⟨newer', hd', hs'⟩ := h'
  refine ⟨newer ++ newer', by rw [hd', hd, List.append_assoc], ?_⟩
  intro d hmem
  rcases List.mem_append.mp hmem with hmem | hmem
  · exact hs d hmem
  · exact hs' d hmem

/-- Depths stay bounded. -/
theorem Grows.bounded (h : vars.Grows depth vars') (hb : ∀ d ∈ vars.declarations, d.scope ≤ depth) :
    ∀ d ∈ vars'.declarations, d.scope ≤ depth := by
  obtain ⟨newer, hd, hs⟩ := h
  intro d hmem
  rw [hd] at hmem
  rcases List.mem_append.mp hmem with hmem | hmem
  · exact hb d hmem
  · exact Nat.le_of_eq (hs d hmem)

theorem keepOldest_of_append {newer : List Declaration} (h : vars'.declarations = vars.declarations ++ newer) :
    vars'.keepOldest vars.size = ⟨vars'.newestFirst.drop newer.length⟩ := by
  have hlen := congrArg List.length h
  rw [List.length_append, length_declarations, length_declarations] at hlen
  have hn : vars'.size - vars.size = newer.length := by omega
  rw [keepOldest, hn]

/-- The oldest variables are those that were there before. -/
theorem Grows.declarations_keepOldest (h : vars.Grows depth vars') :
    (vars'.keepOldest vars.size).declarations = vars.declarations := by
  obtain ⟨newer, hd, -⟩ := h
  apply List.reverse_injective
  rw [reverse_declarations, keepOldest_of_append hd, List.map_drop, ← reverse_declarations, hd,
    List.reverse_append, List.drop_left' (by simp)]

/-- Disposing of a depth that is new drops just what was added. -/
theorem Grows.dispose_eq (h : vars.Grows (depth + 1) vars') (hb : ∀ d ∈ vars.declarations, d.scope ≤ depth) :
    vars'.dispose (depth + 1) = vars'.keepOldest vars.size := by
  obtain ⟨newer, hd, hs⟩ := h
  rw [keepOldest_of_append hd]
  refine dispose_eq_of_split hd ?_ ?_
  · intro d hmem
    exact Nat.lt_succ_iff.mpr (hb d hmem)
  · intro d hmem
    exact Nat.le_of_eq (hs d hmem).symm

end Variables

section Growth

variable {fuel depth line : Nat} {vars : Variables} {r : Result}

theorem vars_of_leaving {closing : Bool} {symbol : Option String}
    (h : leaving depth vars closing symbol = .ok r) : r.vars = vars := by
  unfold leaving at h
  obtain ⟨levels, -, h⟩ := bind_eq_ok_iff.mp h
  split at h
  · cases h
    rfl
  · cases h

theorem grows_of_perform {st : Statement} (h : st.perform depth vars = .ok r) : vars.Grows depth r.vars := by
  have keep : ∀ {vars' : Variables}, vars'.declarations = vars.declarations → vars.Grows depth vars' :=
    fun hd => .of_declarations_eq hd
  cases st with
  | blank | exit => cases h; exact keep rfl
  | declare ty name =>
    obtain ⟨vars', hd, h⟩ := bind_eq_ok_iff.mp h
    cases h
    exact ⟨_, Variables.declarations_declare hd, by simp⟩
  | print name =>
    obtain ⟨v, -, h⟩ := bind_eq_ok_iff.mp h
    cases h
    exact keep rfl
  | assign target e =>
    obtain ⟨v, -, h⟩ := bind_eq_ok_iff.mp h
    obtain ⟨value, -, h⟩ := bind_eq_ok_iff.mp h
    obtain ⟨vars', hs, h⟩ := bind_eq_ok_iff.mp h
    cases h
    exact keep (Variables.declarations_store hs)
  | break_ levels | continue_ levels => exact keep (by rw [vars_of_leaving h])
  | untyped | push | pop | if_ | else_ | while_ | end_ | unrecognized => cases h

theorem grows_evalSimple (l : Line) : vars.Grows depth (evalSimple depth line vars l).vars := by
  unfold evalSimple
  split
  · rename_i r hr
    exact grows_of_perform hr
  · exact .of_declarations_eq rfl

theorem grows_of_entering {inside : Option Result} (hi : ∀ r, inside = some r → vars.Grows depth r.vars)
    (h : entering depth line vars inside = some r) : vars.Grows depth r.vars := by
  unfold entering at h
  split at h
  · cases h
    exact .of_declarations_eq rfl
  · exact hi r h

/-- A block leaves the declarations that were there before it. -/
theorem grows_of_inBlock {inside : Option Result} (hi : ∀ r, inside = some r → vars.Grows (depth + 1) r.vars)
    (h : inBlock depth line vars inside = some r) : vars.Grows depth r.vars := by
  refine grows_of_entering ?_ h
  intro r hr
  obtain ⟨r', hr', rfl⟩ := Option.map_eq_some_iff.mp hr
  exact .of_declarations_eq (hi r' hr').declarations_keepOldest

theorem grows_of_choose {test : Expression} {yes no : Option Result}
    (hy : ∀ r, yes = some r → vars.Grows (depth + 1) r.vars)
    (hn : ∀ r, no = some r → vars.Grows (depth + 1) r.vars)
    (h : choose depth line vars test yes no = some r) : vars.Grows depth r.vars := by
  unfold choose at h
  split at h
  · cases h
    exact .of_declarations_eq rfl
  · rename_i taken _
    refine grows_of_inBlock ?_ h
    cases taken with
    | true => exact hy
    | false => exact hn

theorem grows_of_passes {test : Expression} {body : Variables → Option Result}
    (hb : ∀ vars r, body vars = some r → vars.Grows (depth + 1) r.vars)
    (h : passes depth line test body fuel vars = some r) : vars.Grows depth r.vars := by
  induction fuel generalizing vars r with
  | zero => cases h
  | succ fuel ih =>
    rw [passes] at h
    split at h
    · cases h
      exact .of_declarations_eq rfl
    · cases h
      exact .of_declarations_eq rfl
    · refine grows_of_entering ?_ h
      intro r hr
      obtain ⟨r₁, h₁, hr⟩ := Option.bind_eq_some_iff.mp hr
      -- either way the pass has dropped what it declared
      have hk := (hb vars r₁ h₁).declarations_keepOldest
      split at hr
      · obtain ⟨r₂, h₂, rfl⟩ := Option.map_eq_some_iff.mp hr
        have hr₂ : (r₁.vars.keepOldest vars.size).Grows depth r₂.vars := ih h₂
        exact Variables.Grows.trans (.of_declarations_eq hk) hr₂
      · cases hr
        exact .of_declarations_eq hk

theorem grows_of_andThen {r₁ : Result} {next : Variables → Option Result} (h₁ : vars.Grows depth r₁.vars)
    (hn : ∀ vars r, next vars = some r → vars.Grows depth r.vars) (h : r₁.andThen next = some r) :
    vars.Grows depth r.vars := by
  unfold Result.andThen at h
  split at h
  · obtain ⟨r₂, h₂, rfl⟩ := Option.map_eq_some_iff.mp h
    exact h₁.trans (hn _ r₂ h₂)
  · cases h
    exact h₁

end Growth

mutual

theorem Construct.grows_of_eval {fuel : Nat} (c : Construct) {depth line : Nat} {vars : Variables} {r : Result}
    (h : c.eval fuel depth line vars = some r) : vars.Grows depth r.vars := by
  cases c with
  | simple l hl =>
    rw [Construct.eval, Option.some.injEq] at h
    subst h
    exact grows_evalSimple l
  | push body =>
    rw [Construct.eval] at h
    exact grows_of_inBlock (fun r hr => grows_of_evalAll body hr) h
  | if_ test yes =>
    rw [Construct.eval] at h
    refine grows_of_choose (fun r hr => grows_of_evalAll yes hr) ?_ h
    intro r hr
    cases hr
    exact .of_declarations_eq rfl
  | ifElse test yes no =>
    rw [Construct.eval] at h
    exact grows_of_choose (fun r hr => grows_of_evalAll yes hr) (fun r hr => grows_of_evalAll no hr) h
  | while_ test body =>
    rw [Construct.eval] at h
    exact grows_of_passes (fun vars r hr => grows_of_evalAll body hr) h

/-- Constructs add declarations of their own depth, and keep all others whatever happens inside. -/
theorem grows_of_evalAll {fuel : Nat} (cs : List Construct) {depth line : Nat} {vars : Variables} {r : Result}
    (h : evalAll fuel depth line vars cs = some r) : vars.Grows depth r.vars := by
  cases cs with
  | nil =>
    rw [evalAll, Option.some.injEq] at h
    subst h
    exact .of_declarations_eq rfl
  | cons c rest =>
    rw [evalAll] at h
    obtain ⟨r₁, h₁, h⟩ := Option.bind_eq_some_iff.mp h
    exact grows_of_andThen (c.grows_of_eval h₁) (fun vars r hr => grows_of_evalAll rest hr) h

end

end LineScript
