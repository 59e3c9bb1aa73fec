import LineScript.Name
import LineScript.Value

/-!
# LineScript.Variables — the table of live variables

A variable remembers how many blocks were open when it was declared.  Declaring puts a variable at the end of the
table, so the variables of the innermost block are a run at the end; the table keeps its newest variable at the head.

* `Variables.declare`: adds a variable with the zero of its type; names are unique.
* `Variables.store`: changes a value and never a type.
* `Variables.dispose d`: drops the newest variables as long as they were declared at depth `d` or deeper.
-/

namespace LineScript

/-- A variable. -/
structure Variable where
  name : String
  scope : Nat
  value : Value
deriving Inhabited

/-- The type that a variable was declared with. -/
def Variable.ty (v : Variable) : Ty :=
  v.value.ty

/-- The live variables, newest first. -/
structure Variables where
  newestFirst : List Variable := []
deriving Inhabited

namespace Variables

/-- The number of live variables. -/
def size (vars : Variables) : Nat :=
  vars.newestFirst.length

/-- No variable is live. -/
def isEmpty (vars : Variables) : Bool :=
  vars.newestFirst.isEmpty

/-- The variables in the order of their declarations. -/
def toList (vars : Variables) : List Variable :=
  vars.newestFirst.reverse

/-- The live variable with a given name.  There is one at most, so it does not matter from which end the table is
searched. -/
def find? (vars : Variables) (name : String) : Option Variable :=
  vars.newestFirst.find? (fun v => v.name == name)

/-- Declares a variable at a given depth.  A name that is in use is refused first, then a keyword, then a name with a
character that is not allowed. -/
def declare (vars : Variables) (name : String) (ty : Ty) (scope : Nat) : Except Cause Variables :=
  if (vars.find? name).isSome then .error (.duplicateName name)
  else if Name.isReserved name then .error (.reservedName name)
  else if !Name.isWellFormed name then .error (.invalidCharacter name)
  else .ok ⟨⟨name, scope, .zero ty⟩ :: vars.newestFirst⟩

/-- The live variable with a given name, which has to exist. -/
def fetch (vars : Variables) (name : String) : Except Cause Variable :=
  match vars.find? name with
  | some v => .ok v
  | none => .error (.undeclared name)

/-- Variables with another value in the first one of a given name. -/
def replaceValue (name : String) (value : Value) : List Variable → List Variable
  | [] => []
  | v :: rest =>
    if v.name == name then ⟨v.name, v.scope, value⟩ :: rest else v :: replaceValue name value rest

/-- The table with another value under a name. -/
def update (vars : Variables) (name : String) (value : Value) : Variables :=
  ⟨replaceValue name value vars.newestFirst⟩

/-- Stores a value of the declared type in a live variable. -/
def store (vars : Variables) (name : String) (value : Value) : Except Cause Variables :=
  match vars.find? name with
  | some v => if v.ty = value.ty then .ok (vars.update name value) else .error (.typeMismatch name)
  | none => .error (.undeclared name)

/-- Drops the newest variables as long as they were declared at `depth` or deeper. -/
def dispose (vars : Variables) (depth : Nat) : Variables :=
  ⟨vars.newestFirst.dropWhile fun v => depth ≤ v.scope⟩

/-- The number of variables that `dispose` drops. -/
def disposed (vars : Variables) (depth : Nat) : Nat :=
  (vars.newestFirst.takeWhile fun v => depth ≤ v.scope).length

/-- A declaration adds one zero at the end of the table. -/
theorem toList_of_declare_eq_ok {vars vars' : Variables} {name : String} {ty : Ty} {scope : Nat}
    (h : vars.declare name ty scope = .ok vars') : vars'.toList = vars.toList ++ [⟨name, scope, .zero ty⟩] := by
  unfold declare at h
  split at h
  · cases h
  · split at h
    · cases h
    · split at h
      · cases h
      · cases h
        simp [toList]

/-- What is dropped and what is kept make up the table. -/
theorem size_dispose_add_disposed (vars : Variables) (depth : Nat) :
    (vars.dispose depth).size + vars.disposed depth = vars.size := by
  have h := congrArg List.length
    (List.takeWhile_append_dropWhile (p := fun v : Variable => decide (depth ≤ v.scope)) (l := vars.newestFirst))
  rw [List.length_append] at h
  simp only [size, dispose, disposed]
  omega

end Variables

end LineScript
