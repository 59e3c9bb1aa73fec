import LineScript.Keyword

/-!
# LineScript.Name — names of variables

A name is a non-empty run of ASCII letters, digits and underscores that is no keyword.  It may consist of digits
only.
-/

namespace LineScript.Name

/-- Characters that a name may hold: `a-z`, `A-Z`, `0-9` and `_`. -/
def isNameChar (c : Char) : Bool :=
  c.isAlphanum || c == '_'

/-- The text is a non-empty run of name characters. -/
def isWellFormed (s : String) : Bool :=
  !s.toList.isEmpty && s.toList.all isNameChar

/-- The text is taken by a keyword. -/
def isReserved (s : String) : Bool :=
  (Keyword.ofText? s).isSome

end LineScript.Name
