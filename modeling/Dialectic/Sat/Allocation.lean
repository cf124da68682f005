import Dialectic.Json.Misuse

/-!
# How many variables there can be

Fresh variables are handed out as a list, so their number must be an integer, and the list must fit.
-/

namespace Dialectic.Sat

/-- Why no variables are handed out. -/
inductive AllocationError where
  /-- A value is not of the kind that is needed. -/
  | misuse (e : Json.Misuse)
  /-- An integer is added to a floating-point number and is greater than all of those. -/
  | beyondFloats
  /-- A list of so many variables has no length. -/
  | beyondLengths
  /-- A list of so many variables does not fit into the memory. -/
  | beyondMemory
  deriving DecidableEq, Repr

/-- What the error says. -/
def AllocationError.message : AllocationError → String
  | .misuse e => e.message
  | .beyondFloats => "int too large to convert to float"
  | .beyondLengths => "Python int too large to convert to C ssize_t"
  | .beyondMemory => ""

/-- The number of variables from which on a list of them does not fit. -/
def memoryBound : Nat := 8589934592

/-- Checks that a list of so many variables can be made. -/
def checkCount (n : Int) : Except AllocationError Unit :=
  if 9223372036854775807 < n then .error .beyondLengths
  else if (memoryBound : Int) ≤ n then .error .beyondMemory
  else .ok ()

/-- A number below the bound passes. -/
theorem checkCount_of_lt {n : Int} (h : n < memoryBound) : checkCount n = .ok () := by
  have hb : (memoryBound : Int) = 8589934592 := rfl
  rw [checkCount, if_neg (by omega), if_neg (by omega)]

end Dialectic.Sat
