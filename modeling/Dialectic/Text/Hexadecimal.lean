import Dialectic.Text.Basic

/-!
# Hexadecimal digits

The values of hexadecimal digits.
-/

namespace Dialectic.Text.Hexadecimal

/-- The value of a hexadecimal digit. -/
def digit? (c : Char) : Option Nat :=
  if '0' ≤ c ∧ c ≤ '9' then some (c.toNat - 48)
  else if 'a' ≤ c ∧ c ≤ 'f' then some (c.toNat - 87)
  else if 'A' ≤ c ∧ c ≤ 'F' then some (c.toNat - 55)
  else none

end Dialectic.Text.Hexadecimal
