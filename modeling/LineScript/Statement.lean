import LineScript.Expression
import LineScript.Line

/-!
# LineScript.Statement — what a line asks for

A line is read by its first token and the number of the others.  A line that fits no keyword may still be an
assignment, also when it starts with a keyword: `print = 5` assigns to `print`, while `if = 5` is an `if`.

* `Statement.ofLine`: the statement of a line.
* `Statement.ofLine_ne_untyped`: every word that declares a variable names a type.
-/

namespace LineScript

/-- The statements of the language. -/
inductive Statement
  | blank
  | exit
  | declare (ty : Ty) (name : String)
  | untyped
  | push
  | pop
  | print (name : String)
  | if_ (condition : Expression)
  | else_
  | while_ (condition : Expression)
  | end_
  | break_ (levels : Option String)
  | continue_ (levels : Option String)
  | assign (target : String) (value : Expression)
  | unrecognized (text : String)
deriving DecidableEq, Repr, Inhabited

namespace Statement

/-- A declaration by a word, which has to name a type. -/
def declaration (word : Keyword) (name : String) : Statement :=
  match Ty.ofKeyword? word with
  | some ty => declare ty name
  | none => untyped

/-- The statement that a keyword makes with the tokens after it. -/
def ofKeyword? : Keyword → List String → Option Statement
  | .exit, [] => some exit
  | .integer, [name] => some (declaration .integer name)
  | .logical, [name] => some (declaration .logical name)
  | .real, [name] => some (declaration .real name)
  | .push, [] => some push
  | .pop, [] => some pop
  | .print, [name] => some (print name)
  | .if_, tokens => (Expression.ofTokens? tokens).map if_
  | .else_, [] => some else_
  | .while_, tokens => (Expression.ofTokens? tokens).map while_
  | .end_, [] => some end_
  | .break_, [] => some (break_ none)
  | .break_, [levels] => some (break_ (some levels))
  | .continue_, [] => some (continue_ none)
  | .continue_, [levels] => some (continue_ (some levels))
  | _, _ => none

/-- An assignment to `target`, if the tokens after it are an equals sign and an expression. -/
def assignment? (target : String) : List String → Option Statement
  | "=" :: tokens => (Expression.ofTokens? tokens).map (assign target)
  | _ => none

/-- The statement of a line. -/
def ofLine (line : Line) : Statement :=
  if line.isBlank then blank
  else
    match line.tokens with
    | [] => blank
    | head :: rest =>
      match (Keyword.ofText? head).bind (ofKeyword? · rest) with
      | some statement => statement
      | none => (assignment? head rest).getD (unrecognized line.text)

theorem ofKeyword?_ne_untyped (k : Keyword) (tokens : List String) : ofKeyword? k tokens ≠ some untyped := by
  unfold ofKeyword?
  split <;> simp [declaration, Ty.ofKeyword?]

theorem assignment?_getD_ne_untyped (target text : String) (tokens : List String) :
    (assignment? target tokens).getD (unrecognized text) ≠ untyped := by
  unfold assignment?
  split
  · rename_i tokens
    cases Expression.ofTokens? tokens <;> simp
  · simp

/-- Every word that declares a variable names a type. -/
theorem ofLine_ne_untyped (line : Line) : ofLine line ≠ untyped := by
  unfold ofLine
  split
  · simp
  · split
    · simp
    · rename_i head rest _
      split
      · rename_i statement hstatement
        rintro rfl
        obtain ⟨k, -, hk⟩ := Option.bind_eq_some_iff.mp hstatement
        exact ofKeyword?_ne_untyped k rest hk
      · exact assignment?_getD_ne_untyped head line.text rest

end Statement

end LineScript
