import LineScript.Stack
import LineScript.Variables

/-!
# LineScript.Environment — variables and open blocks

Every open block remembers the line that opened it.  Closing a block drops the variables declared in it.
-/

namespace LineScript

/-- The live variables and the lines that opened the open blocks, innermost on top. -/
structure Environment where
  vars : Variables := {}
  blocks : Stack Nat := .empty
deriving Inhabited

namespace Environment

/-- The environment in which a run starts. -/
def empty : Environment := {}

/-- The number of open blocks. -/
def depth (env : Environment) : Nat :=
  env.blocks.size

/-- The line that opened the block `level` steps out from the innermost one. -/
def opener? (env : Environment) (level : Nat) : Option Nat :=
  env.blocks.peek? level

/-- Declares a variable in the innermost open block. -/
def declare (env : Environment) (name : String) (ty : Ty) : Except Cause Environment :=
  match env.vars.declare name ty env.depth with
  | .ok vars => .ok ⟨vars, env.blocks⟩
  | .error cause => .error cause

/-- Opens a block at a line. -/
def openBlock (env : Environment) (line : Nat) : Except Cause Environment :=
  match env.blocks.push "SCOPES NESTED TOO DEEP" line with
  | .ok blocks => .ok ⟨env.vars, blocks⟩
  | .error cause => .error cause

/-- Closes the innermost block and drops what was declared in it; gives the line that opened it. -/
def closeBlock (env : Environment) : Except Cause (Nat × Environment) :=
  match env.blocks.pop with
  | .ok (line, blocks) => .ok (line, ⟨env.vars.dispose env.depth, blocks⟩)
  | .error cause => .error cause

/-- Closes the `n` innermost blocks. -/
def closeBlocks : Nat → Environment → Except Cause Environment
  | 0, env => .ok env
  | n + 1, env =>
    match env.closeBlock with
    | .ok (_, env) => closeBlocks n env
    | .error cause => .error cause

end Environment

end LineScript
