import LineScript.Fault
import LineScript.Listing

/-!
# LineScript.Listing.Matching — where a block ends

The search walks down the listing and counts blocks: an opener adds one, a closer takes one away, and the closer that
leaves none is the end.  Only the roles of the lines matter.

* `Listing.closer? i`: the line that closes the block opened at line `i`.
* `Listing.elseOrCloser? i`: the same, stopping early at an `else` that belongs to this block.
-/

namespace LineScript.Listing

/-- Searches `count` lines from line `i` on, with `depth` blocks open.  With `alternatives`, an `else` directly inside
the outermost of them ends the search too. -/
def search (listing : Listing) (alternatives : Bool) : (count depth i : Nat) → Option Nat
  | 0, _, _ => none
  | count + 1, depth, i =>
    match (listing.line? i).map Line.role with
    | some .opener => search listing alternatives count (depth + 1) (i + 1)
    | some .closer => if depth ≤ 1 then some i else search listing alternatives count (depth - 1) (i + 1)
    | some .alternative =>
      if alternatives && depth == 1 then some i else search listing alternatives count depth (i + 1)
    | _ => search listing alternatives count depth (i + 1)

/-- The line closing the block opened at line `i`. -/
def closer? (listing : Listing) (i : Nat) : Option Nat :=
  listing.search false (listing.size - i) 0 i

/-- The `else` of the block opened at line `i`, or the line closing it. -/
def elseOrCloser? (listing : Listing) (i : Nat) : Option Nat :=
  listing.search true (listing.size - i) 0 i

/-- The line closing the block opened at line `i`, which has to exist. -/
def closer (listing : Listing) (i : Nat) : Except Cause Nat :=
  match listing.closer? i with
  | some j => .ok j
  | none => .error .unterminatedScope

/-- The `else` of the block opened at line `i`, or the line closing it; one of them has to exist. -/
def elseOrCloser (listing : Listing) (i : Nat) : Except Cause Nat :=
  match listing.elseOrCloser? i with
  | some j => .ok j
  | none => .error .unterminatedScope

end LineScript.Listing
