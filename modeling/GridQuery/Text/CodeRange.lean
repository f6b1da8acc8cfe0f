/-!
# Sets of code points

A set of characters written as inclusive ranges of code points, the form in which character
properties are tabulated.
-/

namespace GridQuery.Text

/-- Code points from `first` to `last`, both included. -/
structure CodeRange where
  first : Nat
  last : Nat
deriving DecidableEq, Repr

namespace CodeRange

/-- Whether the code point `n` lies in the range. -/
def contains (r : CodeRange) (n : Nat) : Bool := r.first ≤ n && n ≤ r.last

/-- Whether the character lies in one of the ranges. -/
def anyContains (ranges : List CodeRange) (c : Char) : Bool := ranges.any (·.contains c.toNat)

end CodeRange

end GridQuery.Text
