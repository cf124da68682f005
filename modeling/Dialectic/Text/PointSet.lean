/-!
# Sets of code points

A set of code points is kept as the increasing list of the points at which membership changes: the
first number is the least member, the second the first point after it that is no member, and so on.
-/

namespace Dialectic.Text

/-- Membership in the set whose membership changes at the points of the list. -/
def inside : List Nat → Nat → Bool
  | [], _ => false
  | b :: rest, n => if n < b then false else !inside rest n

/-- The empty list of changes is the empty set. -/
@[simp] theorem inside_nil (n : Nat) : inside [] n = false := rfl

end Dialectic.Text
