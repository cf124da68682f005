/-!
# Binary floating point with 64 bits

The values of the 64-bit format as exact data: a sign, an exponent field and a fraction field, or an
infinity, or the one value that is no number. Numbers are brought into the format by rounding an
exact quotient to the nearest value, a tie going to the even neighbour.
-/

namespace Dialectic

/-- A value of the 64-bit binary format. Every value has one representation. -/
inductive Binary64 where
  /-- No number. -/
  | nan
  /-- An infinity. -/
  | infinite (negative : Bool)
  /-- A finite number by its sign and its two fields. -/
  | finite (negative : Bool) (exponent : Fin 2047) (fraction : Fin 4503599627370496)
  deriving DecidableEq, Repr

namespace Binary64

/-! ## Exact value -/

/-- The number of fractions of one exponent, two to the power of 52. -/
def fractions : Nat := 4503599627370496

/-- Zero of either sign. -/
def zero (negative : Bool) : Binary64 := .finite negative 0 0

/-- The integer that the fields stand for: the magnitude of the value is this times two to the power
of `scale`. -/
def significand (exponent : Fin 2047) (fraction : Fin 4503599627370496) : Nat :=
  if exponent.val = 0 then fraction.val else fractions + fraction.val

/-- The power of two that multiplies the significand. -/
def scale (exponent : Fin 2047) : Int := (max exponent.val 1 : Nat) - 1075

/-- The magnitude of a finite value as numerator and denominator. -/
def ratio (exponent : Fin 2047) (fraction : Fin 4503599627370496) : Nat × Nat :=
  (significand exponent fraction * Nat.pow 2 (scale exponent).toNat,
    Nat.pow 2 (-scale exponent).toNat)

/-! ## Rounding -/

/-- A quotient rounded to the nearest integer, a half going to the even neighbour. -/
def roundDiv (num den : Nat) : Nat :=
  let q := num / den
  let r := num % den
  if 2 * r < den then q else if den < 2 * r then q + 1 else q + q % 2

/-- The greatest power of two that is at most the quotient of two positive numbers. -/
def floorLog2 (num den : Nat) : Int :=
  let k : Int := (num.log2 : Int) - den.log2
  if den * Nat.pow 2 k.toNat ≤ num * Nat.pow 2 (-k).toNat then k else k - 1

/-- The value at a place in the increasing order of the non-negative values; past the greatest
finite one stands the infinity. -/
def ofRank (negative : Bool) (rank : Nat) : Binary64 :=
  if h : rank / 4503599627370496 < 2047 then
    .finite negative ⟨rank / 4503599627370496, h⟩
      ⟨rank % 4503599627370496, Nat.mod_lt _ (by decide)⟩
  else .infinite negative

/-- The value nearest to a quotient. -/
def ofRatio (negative : Bool) (num den : Nat) : Binary64 :=
  if num = 0 then zero negative
  else
    let q := max (floorLog2 num den - 52) (-1074)
    let m := roundDiv (num * Nat.pow 2 (-q).toNat) (den * Nat.pow 2 q.toNat)
    ofRank negative ((q + 1074).toNat * fractions + m)

/-- The value nearest to a decimal number `digits · 10 ^ exponent`. -/
def ofDecimal (negative : Bool) (digits : Nat) (exponent : Int) : Binary64 :=
  let magnitude : Int := exponent + (Nat.toDigits 10 digits).length
  if digits = 0 then zero negative
  else if magnitude < -400 then zero negative
  else if 400 < magnitude then .infinite negative
  else ofRatio negative (digits * Nat.pow 10 exponent.toNat) (Nat.pow 10 (-exponent).toNat)

/-- The value nearest to an integer. -/
def ofInt (n : Int) : Binary64 := ofRatio (n < 0) n.natAbs 1

/-! ## Leaving the format -/

/-- Whether the value is a number other than the infinities. -/
def isFinite : Binary64 → Bool
  | .finite .. => true
  | _ => false

/-- The value without its sign. -/
def magnitude : Binary64 → Binary64
  | .nan => .nan
  | .infinite _ => .infinite false
  | .finite _ e f => .finite false e f

/-- The integer part of a finite value, rounded towards zero. -/
def trunc? : Binary64 → Option Int
  | .finite negative e f =>
    let (num, den) := ratio e f
    let magnitude : Int := num / den
    some (if negative then -magnitude else magnitude)
  | _ => none

/-- The integer that a finite value is, if it is one. -/
def toInt? : Binary64 → Option Int
  | .finite negative e f =>
    let (num, den) := ratio e f
    if num % den = 0 then
      let magnitude : Int := num / den
      some (if negative then -magnitude else magnitude)
    else none
  | _ => none

/-- The value nearest to the value rounded to a number of decimal places; the rounding to places
takes the exact value and sends a half to the even neighbour. -/
def roundTo (places : Nat) : Binary64 → Binary64
  | .finite negative e f =>
    let (num, den) := ratio e f
    ofRatio negative (roundDiv (num * Nat.pow 10 places) den) (Nat.pow 10 places)
  | x => x

end Binary64

end Dialectic
