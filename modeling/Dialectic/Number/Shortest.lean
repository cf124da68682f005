import Dialectic.Number.Binary64

/-!
# Shortest decimals

The decimal number with the fewest digits among those that round to a given value of the 64-bit
format, and the way it is laid out as text.
-/

namespace Dialectic

/-! ## The digits -/

/-- A positive decimal number `digits · 10 ^ exponent`. -/
structure Decimal where
  /-- The digits as one number. -/
  digits : Nat
  /-- The power of ten that multiplies it. -/
  exponent : Int
  deriving DecidableEq, Repr

namespace Decimal

/-- The same number without trailing zeros, looking at no more than the given number of digits. -/
def normalize : Nat → Decimal → Decimal
  | 0, d => d
  | fuel + 1, d =>
    if d.digits ≠ 0 ∧ d.digits % 10 = 0 then normalize fuel ⟨d.digits / 10, d.exponent + 1⟩ else d

/-- The nearest decimal with a unit of `10 ^ exponent` to a positive value, if it rounds to that
value. The three numbers before the last give four times the value and the ends of the interval that
rounds to it, over the common denominator `den`; `closed` says whether the ends belong to it. -/
def onGrid? (four low high den : Nat) (closed : Bool) (exponent : Int) : Option Decimal :=
  let ten := Nat.pow 10 (-exponent).toNat
  let unit := 4 * den * Nat.pow 10 exponent.toNat
  let value := four * ten
  let fits (c : Nat) : Bool :=
    if closed then low * ten ≤ c && c ≤ high * ten else low * ten < c && c < high * ten
  let below := value / unit
  let rest := value % unit
  match fits (below * unit), fits ((below + 1) * unit) with
  | false, false => none
  | true, false => some ⟨below, exponent⟩
  | false, true => some ⟨below + 1, exponent⟩
  | true, true =>
    if 2 * rest < unit then some ⟨below, exponent⟩
    else if unit < 2 * rest then some ⟨below + 1, exponent⟩
    else some ⟨below + below % 2, exponent⟩

/-- The power of ten of the leading digit of a positive quotient that is at least `10 ^ -400`. -/
def leadingExponent (num den : Nat) : Int :=
  (Nat.toDigits 10 (num * Nat.pow 10 400 / den)).length - 401

/-- The decimal with the fewest digits that rounds to a finite value; of several, the one nearest to
the value. Seventeen digits always suffice. -/
def shortest (e : Fin 2047) (f : Fin 4503599627370496) : Decimal :=
  let (num, den) := Binary64.ratio e f
  if num = 0 then ⟨0, 0⟩
  else
    let m := Binary64.significand e f
    let ulp := num / m
    let low := 4 * num - (if f.val = 0 ∧ 1 < e.val then ulp else 2 * ulp)
    let high := 4 * num + 2 * ulp
    let top := leadingExponent num den
    let grids := (List.range 17).map fun n => top - (n : Nat)
    match grids.findSome? (onGrid? (4 * num) low high den (m % 2 == 0)) with
    | some d => normalize 18 d
    | none => ⟨num / den, 0⟩

end Decimal

/-! ## The text -/

/-- How the text of a value is laid out. -/
structure FloatLayout where
  /-- The least exponent of the leading digit that is written positionally. -/
  leastPositional : Int
  /-- The greatest exponent of the leading digit that is written positionally. -/
  greatestPositional : Int
  /-- The least number of digits of a written exponent. -/
  exponentWidth : Nat
  /-- The text of the value that is no number. -/
  nan : String
  /-- The text of the positive infinity. -/
  infinity : String

/-- Positional from four places after the point to sixteen places before it, else with an exponent
of a sign and at least two digits; an integral positional text ends in `.0`. -/
def FloatLayout.standard : FloatLayout where
  leastPositional := -4
  greatestPositional := 15
  exponentWidth := 2
  nan := "NaN"
  infinity := "Infinity"

/-- The digits of a number with zeros in front up to a width. -/
def paddedDigits (width n : Nat) : List Char :=
  let ds := Nat.toDigits 10 n
  List.replicate (width - ds.length) '0' ++ ds

/-- A decimal number laid out as text. -/
def FloatLayout.decimal (layout : FloatLayout) (d : Decimal) : List Char :=
  let ds := Nat.toDigits 10 d.digits
  let top : Int := d.exponent + ds.length - 1
  if layout.leastPositional ≤ top ∧ top ≤ layout.greatestPositional then
    if top < 0 then
      '0' :: '.' :: (List.replicate (-top - 1).toNat '0' ++ ds)
    else
      let whole := top.toNat + 1
      let front := ds.take whole ++ List.replicate (whole - ds.length) '0'
      let back := ds.drop whole
      front ++ '.' :: (if back = [] then ['0'] else back)
  else
    let mantissa :=
      match ds with
      | d :: e :: rest => d :: '.' :: e :: rest
      | ds => ds
    mantissa ++ 'e' :: (if top < 0 then '-' else '+') ::
      paddedDigits layout.exponentWidth top.natAbs

/-- The text of a value. -/
def FloatLayout.write (layout : FloatLayout) : Binary64 → List Char
  | .nan => layout.nan.toList
  | .infinite negative => (if negative then ['-'] else []) ++ layout.infinity.toList
  | .finite negative e f =>
    (if negative then ['-'] else []) ++ layout.decimal (Decimal.shortest e f)

end Dialectic
