/-!
# LineScript.Keyword — the reserved words

A line is told apart by its first word.  Three keywords open a block (`push`, `if`, `while`) and two close one
(`pop`, `end`).

* `Keyword.text`, `Keyword.ofText?`: the spelling and its inverse.
* `Keyword.ofText?_eq_some_iff`: a text is a keyword exactly when it is that keyword's spelling.
-/

namespace LineScript

/-- A reserved word. -/
inductive Keyword
  | and_ | break_ | continue_ | else_ | end_ | exit | false_ | if_ | integer | logical | not_ | or_ | pop | print
  | push | real | sqrt | true_ | while_
deriving DecidableEq, Repr

namespace Keyword

/-- The spelling of a keyword in a script. -/
def text : Keyword → String
  | and_ => "and"
  | break_ => "break"
  | continue_ => "continue"
  | else_ => "else"
  | end_ => "end"
  | exit => "exit"
  | false_ => "false"
  | if_ => "if"
  | integer => "integer"
  | logical => "logical"
  | not_ => "not"
  | or_ => "or"
  | pop => "pop"
  | print => "print"
  | push => "push"
  | real => "real"
  | sqrt => "sqrt"
  | true_ => "true"
  | while_ => "while"

/-- The keyword with a given spelling; case matters.  A text is compared with the keywords of its own length only. -/
def ofText? (s : String) : Option Keyword :=
  match s.utf8ByteSize with
  | 2 =>
    match s with
    | "if" => some if_
    | "or" => some or_
    | _ => none
  | 3 =>
    match s with
    | "end" => some end_
    | "pop" => some pop
    | "and" => some and_
    | "not" => some not_
    | _ => none
  | 4 =>
    match s with
    | "else" => some else_
    | "push" => some push
    | "real" => some real
    | "exit" => some exit
    | "sqrt" => some sqrt
    | "true" => some true_
    | _ => none
  | 5 =>
    match s with
    | "while" => some while_
    | "print" => some print
    | "break" => some break_
    | "false" => some false_
    | _ => none
  | 7 =>
    match s with
    | "integer" => some integer
    | "logical" => some logical
    | _ => none
  | 8 =>
    match s with
    | "continue" => some continue_
    | _ => none
  | _ => none

/-- Keywords that open a block. -/
def isOpener : Keyword → Bool
  | push | if_ | while_ => true
  | _ => false

/-- Keywords that close a block. -/
def isCloser : Keyword → Bool
  | pop | end_ => true
  | _ => false

@[simp] theorem ofText?_text (k : Keyword) : ofText? k.text = some k := by
  cases k <;> rfl

theorem ofText?_eq_some_iff {s : String} {k : Keyword} : ofText? s = some k ↔ s = k.text := by
  constructor
  · intro h
    unfold ofText? at h
    split at h
    iterate 6
      · split at h <;> cases h <;> rfl
    · cases h
  · rintro rfl
    exact ofText?_text k

end Keyword

end LineScript
