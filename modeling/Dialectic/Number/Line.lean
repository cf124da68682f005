import Dialectic.Number.Binary64

/-!
# The number line

Integers and floating-point numbers as points of one line, on which they are compared exactly. The
infinities are the two ends of the line; the value that is no number is nowhere on it.
-/

namespace Dialectic

/-- A point of the number line. -/
inductive LinePoint where
  /-- Before all numbers. -/
  | start
  /-- A quotient, whose denominator is positive. -/
  | quotient (num : Int) (den : Nat)
  /-- After all numbers. -/
  | finish
  deriving DecidableEq, Repr

namespace LinePoint

/-- The point of an integer. -/
def ofInt (n : Int) : LinePoint := .quotient n 1

/-- Whether one point comes before another. -/
def isBefore : LinePoint → LinePoint → Bool
  | .start, .start => false
  | .start, _ => true
  | .quotient a b, .quotient c d => decide (a * d < c * b)
  | .quotient .., .finish => true
  | _, _ => false

/-- Whether two points are one. -/
def isAt (p q : LinePoint) : Bool := !p.isBefore q && !q.isBefore p

/-- Integers are in their order. -/
@[simp] theorem isBefore_ofInt (m n : Int) : (ofInt m).isBefore (ofInt n) = decide (m < n) := by
  simp [ofInt, isBefore]

end LinePoint

/-- The point of a floating-point number. -/
def Binary64.point? : Binary64 → Option LinePoint
  | .nan => none
  | .infinite true => some .start
  | .infinite false => some .finish
  | .finite negative e f =>
    let (num, den) := ratio e f
    some (.quotient (if negative then -(num : Int) else num) den)

end Dialectic
