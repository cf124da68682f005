import Dialectic.Number.Binary64
import Mathlib.Algebra.Order.Field.Power
import Mathlib.Algebra.Order.Ring.Rat
import Mathlib.Tactic.FieldSimp
import Mathlib.Tactic.Linarith
import Mathlib.Tactic.NormNum
import Mathlib.Tactic.Positivity
import Mathlib.Tactic.Ring

/-!
# What is rounded to a value

A number is rounded to a finite value of the 64-bit format if it lies between the points half-way to
the values next to it (`RoundsTo`); the points themselves belong to the value if its significand is
even. Quotients (`ofRatio_eq`) and decimal numbers (`ofDecimal_eq`) are brought into the format so.
-/

namespace Dialectic

/-! ## Powers -/

/-- A power with any exponent is a quotient of two with natural ones. -/
theorem zpow_eq_div (b : ℚ) (k : ℤ) : b ^ k = b ^ k.toNat / b ^ (-k).toNat := by
  rcases le_total 0 k with hk | hk
  · lift k to ℕ using hk
    simp
  · obtain ⟨n, rfl⟩ := Int.exists_eq_neg_ofNat hk
    simp [zpow_neg]

/-- The powers of two up to the greatest finite value, and down to the least, have no more than four
hundred digits. -/
theorem two_pow_lt_ten_pow {m : ℕ} (h : m ≤ 1200) : (2 : ℚ) ^ m < 10 ^ 400 :=
  calc (2 : ℚ) ^ m ≤ 2 ^ (3 * 400) := pow_le_pow_right₀ one_le_two h
    _ = (2 ^ 3) ^ 400 := pow_mul ..
    _ < 10 ^ 400 := pow_lt_pow_left₀ (by norm_num) (by norm_num) (by decide)

/-- A number lies between the powers of ten that its digits tell. -/
theorem length_toDigits_spec {n : ℕ} (hn : 0 < n) :
    (10 : ℚ) ^ ((Nat.toDigits 10 n).length - 1 : ℤ) ≤ n ∧
      (n : ℚ) < 10 ^ ((Nat.toDigits 10 n).length : ℤ) := by
  have hpos : 0 < (Nat.toDigits 10 n).length := List.length_pos_iff.2 Nat.toDigits_ne_nil
  constructor
  · have hle : 10 ^ ((Nat.toDigits 10 n).length - 1) ≤ n := by
      rcases Nat.eq_or_lt_of_le (show 1 ≤ (Nat.toDigits 10 n).length from hpos) with hone | hlt
      · rw [← hone]
        exact hn
      · by_contra hnot
        have := (Nat.length_toDigits_le_iff (b := 10) (n := n) (by decide)
          (show 0 < (Nat.toDigits 10 n).length - 1 by omega)).2 (not_le.1 hnot)
        omega
    rw [← Nat.cast_pred hpos, zpow_natCast]
    exact_mod_cast hle
  · rw [zpow_natCast]
    exact_mod_cast (Nat.length_toDigits_le_iff (by decide) hpos).1 le_rfl

/-- Whether a number lies between two others, or is one of them if they belong to what is between
them. -/
def IsBetween (closed : Bool) (low high x : ℚ) : Prop :=
  if closed then low ≤ x ∧ x ≤ high else low < x ∧ x < high

variable {closed : Bool} {low high x : ℚ}

/-- What lies strictly between two bounds lies between them, whether they count or not. -/
theorem isBetween_of_lt (hlow : low < x) (hhigh : x < high) : IsBetween closed low high x := by
  cases closed with
  | true => exact ⟨hlow.le, hhigh.le⟩
  | false => exact ⟨hlow, hhigh⟩

theorem IsBetween.low_le (h : IsBetween closed low high x) : low ≤ x := by
  cases closed with
  | true => exact h.1
  | false => exact (show low < x ∧ x < high from h).1.le

theorem IsBetween.le_high (h : IsBetween closed low high x) : x ≤ high := by
  cases closed with
  | true => exact h.2
  | false => exact (show low < x ∧ x < high from h).2.le

theorem IsBetween.closed_eq (h : IsBetween closed low high x) (hx : x = low ∨ x = high) :
    closed = true := by
  cases closed with
  | true => rfl
  | false =>
    obtain ⟨hlow, hhigh⟩ : low < x ∧ x < high := h
    rcases hx with rfl | rfl
    · exact absurd hlow (lt_irrefl _)
    · exact absurd hhigh (lt_irrefl _)

namespace Binary64

variable {e : Fin 2047} {f : Fin 4503599627370496} {num den n : ℕ} {k : ℤ}

/-! ## Values and the points half-way between them -/

/-- The unit of the last place of a finite value. -/
def unit (e : Fin 2047) : ℚ := 2 ^ scale e

/-- The magnitude of a finite value. -/
def size (e : Fin 2047) (f : Fin 4503599627370496) : ℚ := significand e f * unit e

/-- Whether the value before is only half a unit away. -/
def IsFirst (e : Fin 2047) (f : Fin 4503599627370496) : Prop := f.val = 0 ∧ 1 < e.val

instance : Decidable (IsFirst e f) := inferInstanceAs (Decidable (f.val = 0 ∧ 1 < e.val))

/-- The point half-way to the value before. -/
def lower (e : Fin 2047) (f : Fin 4503599627370496) : ℚ :=
  size e f - if IsFirst e f then unit e / 4 else unit e / 2

/-- The point half-way to the value after. -/
def upper (e : Fin 2047) (f : Fin 4503599627370496) : ℚ := size e f + unit e / 2

/-- Whether a number is rounded to a finite value. -/
def RoundsTo (e : Fin 2047) (f : Fin 4503599627370496) (x : ℚ) : Prop :=
  IsBetween (significand e f % 2 == 0) (lower e f) (upper e f) x

theorem unit_pos (e : Fin 2047) : 0 < unit e := by
  unfold unit
  positivity

theorem le_scale (e : Fin 2047) : -1074 ≤ scale e := by
  unfold scale
  omega

theorem pow_mul_unit (n : ℕ) (e : Fin 2047) : (2 : ℚ) ^ n * unit e = 2 ^ (n + scale e) := by
  rw [unit, zpow_add₀ two_ne_zero, zpow_natCast]

theorem half_unit (e : Fin 2047) : (2 : ℚ) ^ (scale e - 1) = unit e / 2 := by
  rw [zpow_sub_one₀ two_ne_zero, unit, div_eq_mul_inv]

/-- Only an even number is rounded to from halfway. -/
theorem RoundsTo.even (h : RoundsTo e f x) (hx : x = lower e f ∨ x = upper e f) :
    significand e f % 2 = 0 := by
  simpa using h.closed_eq hx

/-- A finite value is rounded to itself. -/
theorem roundsTo_size (e : Fin 2047) (f : Fin 4503599627370496) : RoundsTo e f (size e f) := by
  have hunit := unit_pos e
  have hlower : lower e f < size e f := by
    unfold lower
    split <;> linarith
  have hupper : size e f < upper e f := by
    unfold upper
    linarith
  exact isBetween_of_lt hlower hupper

theorem significand_lt (e : Fin 2047) (f : Fin 4503599627370496) :
    significand e f < 9007199254740992 := by
  have := f.isLt
  unfold significand fractions
  split <;> omega

/-- The point after the last value of an exponent lies before the first value of the next one. -/
theorem upper_lt (e : Fin 2047) (f : Fin 4503599627370496) : upper e f < 2 ^ (53 + scale e) := by
  have hunit := unit_pos e
  have hlt : (significand e f : ℚ) + 1 ≤ 2 ^ 53 := by
    norm_num
    exact_mod_cast significand_lt e f
  have hproduct := mul_le_mul_of_nonneg_right hlt hunit.le
  calc upper e f = significand e f * unit e + unit e / 2 := rfl
    _ < 2 ^ 53 * unit e := by linarith
    _ = 2 ^ (53 + scale e) := pow_mul_unit 53 e

theorem IsFirst.significand_eq (h : IsFirst e f) : significand e f = 4503599627370496 := by
  have := h.2
  unfold significand fractions
  rw [if_neg (by omega), h.1]

/-! ## The place of a value among all -/

/-- The place of a finite value in the order of the values is given by its unit and its
significand. -/
theorem rank_eq (e : Fin 2047) (f : Fin 4503599627370496) :
    (scale e + 1074).toNat * fractions + significand e f = e.val * fractions + f.val := by
  unfold scale significand fractions
  split
  · rename_i he
    rw [he]
    simp
  · have hmax : max e.val 1 = e.val := by omega
    rw [hmax]
    omega

/-- A number is found by its rank. -/
theorem ofRank_rank (negative : Bool) (e : Fin 2047) (f : Fin 4503599627370496) :
    ofRank negative (e.val * fractions + f.val) = .finite negative e f := by
  have hf := f.isLt
  have hdiv : (e.val * fractions + f.val) / 4503599627370496 = e.val := by
    unfold fractions
    omega
  have hmod : (e.val * fractions + f.val) % 4503599627370496 = f.val := by
    unfold fractions
    omega
  unfold ofRank
  simp only [hdiv, hmod, e.isLt, dif_pos]

/-! ## Rounding to an integer -/

/-- A quotient is rounded to the integer that is at most a half away, and even if it is just a
half. -/
theorem roundDiv_eq (hden : 0 < den) (hlow : (n : ℚ) - 1 / 2 ≤ num / den)
    (hhigh : (num : ℚ) / den ≤ n + 1 / 2)
    (heven : (num : ℚ) / den = n - 1 / 2 ∨ (num : ℚ) / den = n + 1 / 2 → n % 2 = 0) :
    roundDiv num den = n := by
  have hq : (0 : ℚ) < den := by exact_mod_cast hden
  rw [le_div_iff₀ hq] at hlow
  rw [div_le_iff₀ hq] at hhigh
  rw [div_eq_iff hq.ne', div_eq_iff hq.ne'] at heven
  have hlow' : 2 * (n * den) ≤ 2 * num + den := by
    have : (2 * (n * den) : ℚ) ≤ 2 * num + den := by linarith
    exact_mod_cast this
  have hhigh' : 2 * num ≤ 2 * (n * den) + den := by
    have : (2 * num : ℚ) ≤ 2 * (n * den) + den := by linarith
    exact_mod_cast this
  have heven' : 2 * (n * den) = 2 * num + den ∨ 2 * num = 2 * (n * den) + den → n % 2 = 0 := by
    refine fun h => heven (h.imp (fun h => ?_) fun h => ?_)
    · have : (2 * (n * den) : ℚ) = 2 * num + den := by exact_mod_cast h
      linarith
    · have : (2 * num : ℚ) = 2 * (n * den) + den := by exact_mod_cast h
      linarith
  have hdivision := Nat.div_add_mod num den
  have hrest := Nat.mod_lt num hden
  -- The integer is the quotient or the one after it.
  have hbelow : num / den ≤ n := by
    by_contra hlt
    have := Nat.mul_le_mul_left den (show n + 1 ≤ num / den by omega)
    rw [Nat.mul_add, Nat.mul_comm den n] at this
    omega
  have habove : n ≤ num / den + 1 := by
    by_contra hlt
    have := Nat.mul_le_mul_left den (show num / den + 2 ≤ n by omega)
    rw [Nat.mul_add, Nat.mul_comm den n] at this
    omega
  unfold roundDiv
  simp only
  rcases Nat.eq_or_lt_of_le hbelow with heq | hlt
  · rw [← heq, Nat.mul_comm (num / den) den] at hhigh' heven'
    rw [← heq]
    split_ifs <;> omega
  · obtain rfl : n = num / den + 1 := by omega
    rw [Nat.add_mul, Nat.mul_comm (num / den) den] at hlow' heven'
    split_ifs <;> omega

/-! ## The power of two below a quotient -/

/-- A power of two is compared with a quotient in natural numbers. -/
theorem le_div_iff_pow (hden : 0 < den) (k : ℤ) :
    (2 : ℚ) ^ k ≤ num / den ↔ den * Nat.pow 2 k.toNat ≤ num * Nat.pow 2 (-k).toNat := by
  have hq : (0 : ℚ) < den := by exact_mod_cast hden
  rw [zpow_eq_div 2, div_le_div_iff₀ (by positivity) hq, mul_comm]
  exact_mod_cast Iff.rfl

/-- A quotient lies between the power of two and the next one. -/
theorem floorLog2_spec (hnum : 0 < num) (hden : 0 < den) :
    (2 : ℚ) ^ floorLog2 num den ≤ num / den ∧ (num : ℚ) / den < 2 ^ (floorLog2 num den + 1) := by
  have hq : (0 : ℚ) < den := by exact_mod_cast hden
  have hnumLow : (2 : ℚ) ^ (num.log2 : ℤ) ≤ num := by exact_mod_cast Nat.log2_self_le hnum.ne'
  have hnumHigh : (num : ℚ) < 2 ^ ((num.log2 : ℤ) + 1) := by exact_mod_cast Nat.lt_log2_self
  have hdenLow : (2 : ℚ) ^ (den.log2 : ℤ) ≤ den := by exact_mod_cast Nat.log2_self_le hden.ne'
  have hdenHigh : (den : ℚ) < 2 ^ ((den.log2 : ℤ) + 1) := by exact_mod_cast Nat.lt_log2_self
  have hlow : (2 : ℚ) ^ ((num.log2 : ℤ) - den.log2 - 1) ≤ num / den := by
    rw [le_div_iff₀ hq]
    calc (2 : ℚ) ^ ((num.log2 : ℤ) - den.log2 - 1) * den
        ≤ 2 ^ ((num.log2 : ℤ) - den.log2 - 1) * 2 ^ ((den.log2 : ℤ) + 1) := by gcongr
      _ = 2 ^ (num.log2 : ℤ) := by rw [← zpow_add₀ two_ne_zero]; congr 1; ring
      _ ≤ num := hnumLow
  have hhigh : (num : ℚ) / den < 2 ^ ((num.log2 : ℤ) - den.log2 + 1) := by
    rw [div_lt_iff₀ hq]
    calc (num : ℚ) < 2 ^ ((num.log2 : ℤ) + 1) := hnumHigh
      _ = 2 ^ ((num.log2 : ℤ) - den.log2 + 1) * 2 ^ (den.log2 : ℤ) := by
        rw [← zpow_add₀ two_ne_zero]; congr 1; ring
      _ ≤ 2 ^ ((num.log2 : ℤ) - den.log2 + 1) * den := by gcongr
  unfold floorLog2
  simp only
  split
  · rename_i h
    exact ⟨(le_div_iff_pow hden _).2 h, hhigh⟩
  · rename_i h
    refine ⟨hlow, ?_⟩
    rw [Int.sub_add_cancel]
    exact not_le.1 fun hle => h ((le_div_iff_pow hden _).1 hle)

theorem floorLog2_lt (hnum : 0 < num) (hden : 0 < den) (h : (num : ℚ) / den < 2 ^ k) :
    floorLog2 num den < k :=
  (zpow_lt_zpow_iff_right₀ one_lt_two).1 ((floorLog2_spec hnum hden).1.trans_lt h)

theorem le_floorLog2 (hnum : 0 < num) (hden : 0 < den) (h : (2 : ℚ) ^ k ≤ num / den) :
    k ≤ floorLog2 num den :=
  Int.lt_add_one_iff.1
    ((zpow_lt_zpow_iff_right₀ one_lt_two).1 (h.trans_lt (floorLog2_spec hnum hden).2))

/-! ## Rounding to the format -/

/-- A quotient is rounded to as many units as it is nearest to. -/
theorem ofRatio_eq_ofRank (negative : Bool) (hnum : 0 < num) (hden : 0 < den)
    (hk : max (floorLog2 num den - 52) (-1074) = k) (hlow : (n - 1 / 2) * (2 : ℚ) ^ k ≤ num / den)
    (hhigh : (num : ℚ) / den ≤ (n + 1 / 2) * 2 ^ k)
    (heven : (num : ℚ) / den = (n - 1 / 2) * 2 ^ k ∨ (num : ℚ) / den = (n + 1 / 2) * 2 ^ k →
      n % 2 = 0) :
    ofRatio negative num den = ofRank negative ((k + 1074).toNat * fractions + n) := by
  have hpow : (0 : ℚ) < 2 ^ k := by positivity
  have hquotient : ((num * Nat.pow 2 (-k).toNat : ℕ) : ℚ) / (den * Nat.pow 2 k.toNat : ℕ) =
      num / den / 2 ^ k := by
    rw [zpow_eq_div 2 k]
    push_cast [Nat.pow_eq]
    field_simp
  have hround : roundDiv (num * Nat.pow 2 (-k).toNat) (den * Nat.pow 2 k.toNat) = n := by
    refine roundDiv_eq (Nat.mul_pos hden (Nat.pow_pos two_pos)) ?_ ?_ ?_
    · rwa [hquotient, le_div_iff₀ hpow]
    · rwa [hquotient, div_le_iff₀ hpow]
    · rwa [hquotient, div_eq_iff hpow.ne', div_eq_iff hpow.ne']
  unfold ofRatio
  rw [if_neg hnum.ne']
  simp only [hk, hround]

section OfRatio

variable (negative : Bool) (hnum : 0 < num) (hden : 0 < den)
include hnum hden

/-- Just before the first value of an exponent the unit is half as large. -/
theorem ofRatio_eq_of_isFirst (hfirst : IsFirst e f) (hlow : lower e f ≤ num / den)
    (hlt : (num : ℚ) / den < size e f) : ofRatio negative num den = .finite negative e f := by
  have hunit := unit_pos e
  have hscale : -1073 ≤ scale e := by
    have := hfirst.2
    unfold scale
    omega
  have hsize : size e f = 2 ^ 52 * unit e := by
    rw [size, hfirst.significand_eq]
    norm_num
  rw [lower, if_pos hfirst, hsize] at hlow
  rw [hsize] at hlt
  have hbelow : floorLog2 num den < 52 + scale e :=
    floorLog2_lt hnum hden (hlt.trans_eq (pow_mul_unit 52 e))
  have habove : 51 + scale e ≤ floorLog2 num den := by
    refine le_floorLog2 hnum hden ((pow_mul_unit 51 e).symm.trans_le ?_)
    linarith
  have hrank : (scale e - 1 + 1074).toNat * fractions + 9007199254740992 =
      (scale e + 1074).toNat * fractions + 4503599627370496 := by
    unfold fractions
    omega
  rw [ofRatio_eq_ofRank negative hnum hden (k := scale e - 1) (n := 9007199254740992) (by omega),
    hrank, ← hfirst.significand_eq, rank_eq, ofRank_rank]
  · rw [half_unit]
    push_cast
    linarith
  · rw [half_unit]
    push_cast
    linarith
  · exact fun _ => rfl

/-- Elsewhere the unit is that of the value. -/
theorem ofRatio_eq_of_near (hnear : IsFirst e f → size e f ≤ num / den)
    (h : RoundsTo e f (num / den)) : ofRatio negative num den = .finite negative e f := by
  have hunit := unit_pos e
  have hhigh := h.le_high
  unfold upper at hhigh
  have hlow : size e f - unit e / 2 ≤ num / den := by
    by_cases hfirst : IsFirst e f
    · linarith [hnear hfirst]
    · simpa only [lower, if_neg hfirst] using h.low_le
  have heven : (num : ℚ) / den = size e f - unit e / 2 ∨ (num : ℚ) / den = size e f + unit e / 2 →
      significand e f % 2 = 0 := by
    refine fun hhalf => h.even (hhalf.imp (fun heq => ?_) id)
    by_cases hfirst : IsFirst e f
    · linarith [hnear hfirst]
    · rwa [lower, if_neg hfirst]
  have hbelow : floorLog2 num den < 53 + scale e :=
    floorLog2_lt hnum hden (h.le_high.trans_lt (upper_lt e f))
  have habove : scale e = -1074 ∨ 52 + scale e ≤ floorLog2 num den := by
    by_cases he : e.val ≤ 1
    · left
      unfold scale
      omega
    · right
      refine le_floorLog2 hnum hden ((pow_mul_unit 52 e).symm.trans_le ?_)
      by_cases hfirst : IsFirst e f
      · have := hnear hfirst
        rw [size, hfirst.significand_eq] at this
        norm_num at this ⊢
        exact this
      · have hle : (2 : ℚ) ^ 52 + 1 ≤ significand e f := by
          have hf : f.val ≠ 0 := fun hf => hfirst ⟨hf, by omega⟩
          have : 4503599627370497 ≤ significand e f := by
            unfold significand fractions
            rw [if_neg (by omega)]
            omega
          norm_num
          exact_mod_cast this
        have := mul_le_mul_of_nonneg_right hle hunit.le
        unfold size at hlow
        linarith
  have hscale := le_scale e
  rw [ofRatio_eq_ofRank negative hnum hden (k := scale e) (n := significand e f) (by omega),
    rank_eq, ofRank_rank]
  · rwa [← unit, sub_mul, one_div, inv_mul_eq_div, ← size]
  · rwa [← unit, add_mul, one_div, inv_mul_eq_div, ← size]
  · rwa [← unit, sub_mul, add_mul, one_div, inv_mul_eq_div, ← size]

/-- **Quotients.** A quotient is brought into the format as the value that it is rounded to. -/
theorem ofRatio_eq (h : RoundsTo e f (num / den)) :
    ofRatio negative num den = .finite negative e f := by
  by_cases hbefore : IsFirst e f ∧ (num : ℚ) / den < size e f
  · exact ofRatio_eq_of_isFirst negative hnum hden hbefore.1 h.low_le hbefore.2
  · exact ofRatio_eq_of_near negative hnum hden
      (fun hfirst => not_lt.1 fun hlt => hbefore ⟨hfirst, hlt⟩) h

end OfRatio

/-! ## Decimal numbers -/

/-- What is rounded to a finite value has no more than four hundred digits before the point. -/
theorem RoundsTo.lt (h : RoundsTo e f x) : x < 10 ^ (400 : ℤ) := by
  have hscale : 53 + scale e ≤ 1024 := by
    have := e.isLt
    unfold scale
    omega
  calc x ≤ upper e f := h.le_high
    _ < 2 ^ (53 + scale e) := upper_lt e f
    _ ≤ 2 ^ (1024 : ℤ) := zpow_le_zpow_right₀ one_le_two hscale
    _ ≤ 10 ^ (400 : ℤ) := by
      rw [zpow_ofNat, zpow_ofNat]
      exact (two_pow_lt_ten_pow (by decide)).le

/-- What is rounded to a finite value other than zero has one of its first four hundred digits after
the point. -/
theorem RoundsTo.lt_of_ne (h : RoundsTo e f x) (hne : significand e f ≠ 0) :
    10 ^ (-400 : ℤ) < x := by
  have hunit := unit_pos e
  have hone : (1 : ℚ) ≤ significand e f := by
    exact_mod_cast Nat.one_le_iff_ne_zero.2 hne
  have hscale : -1075 ≤ scale e - 1 := Int.sub_le_sub_right (le_scale e) 1
  have hproduct := mul_le_mul_of_nonneg_right hone hunit.le
  have hhalf : unit e / 2 ≤ lower e f := by
    unfold lower size
    split <;> linarith
  calc (10 : ℚ) ^ (-400 : ℤ) < 2 ^ (-1075 : ℤ) := by
        rw [zpow_neg, zpow_neg, zpow_ofNat, zpow_ofNat]
        exact inv_strictAnti₀ (pow_pos two_pos _) (two_pow_lt_ten_pow (by decide))
    _ ≤ 2 ^ (scale e - 1) := zpow_le_zpow_right₀ one_le_two hscale
    _ = unit e / 2 := half_unit e
    _ ≤ x := hhalf.trans h.low_le

/-- A number without a significand is zero. -/
theorem eq_zero_of_significand_eq (h : significand e f = 0) (negative : Bool) :
    finite negative e f = zero negative := by
  unfold significand fractions at h
  split at h
  · rename_i he
    rw [zero, Fin.ext (a := e) (b := 0) he, Fin.ext (a := f) (b := 0) h]
  · omega

/-- **Decimal numbers.** A decimal number is brought into the format as the value that it is rounded
to. -/
theorem ofDecimal_eq (negative : Bool) (hn : 0 < n) (h : RoundsTo e f (n * 10 ^ k)) :
    ofDecimal negative n k = .finite negative e f := by
  obtain ⟨hlow, hhigh⟩ := length_toDigits_spec hn
  have hpow : (0 : ℚ) < 10 ^ k := by positivity
  have hlow' : (10 : ℚ) ^ (k + (Nat.toDigits 10 n).length - 1) ≤ n * 10 ^ k := by
    have := mul_le_mul_of_nonneg_right hlow hpow.le
    rwa [← zpow_add₀ (by norm_num), show ((Nat.toDigits 10 n).length : ℤ) - 1 + k =
      k + (Nat.toDigits 10 n).length - 1 by ring] at this
  have hhigh' : (n * 10 ^ k : ℚ) < 10 ^ (k + (Nat.toDigits 10 n).length) := by
    have := mul_lt_mul_of_pos_right hhigh hpow
    rwa [← zpow_add₀ (by norm_num), add_comm] at this
  unfold ofDecimal
  simp only [if_neg hn.ne']
  split_ifs with hsmall hlarge
  · -- Too small for any value but zero.
    refine (eq_zero_of_significand_eq ?_ negative).symm
    by_contra hne
    have hbound : (10 : ℚ) ^ (k + (Nat.toDigits 10 n).length) ≤ 10 ^ (-400 : ℤ) :=
      zpow_le_zpow_right₀ (by norm_num) hsmall.le
    exact absurd (h.lt_of_ne hne) (not_lt.2 (hhigh'.le.trans hbound))
  · have hbound : (10 : ℚ) ^ (400 : ℤ) ≤ 10 ^ (k + (Nat.toDigits 10 n).length - 1) :=
      zpow_le_zpow_right₀ (by norm_num) (by omega)
    exact absurd h.lt (not_lt.2 (hbound.trans hlow'))
  · have hquotient : ((n * Nat.pow 10 k.toNat : ℕ) : ℚ) / (Nat.pow 10 (-k).toNat : ℕ) =
        n * 10 ^ k := by
      rw [zpow_eq_div 10 k]
      push_cast [Nat.pow_eq]
      rw [mul_div_assoc]
    refine ofRatio_eq negative (Nat.mul_pos hn (Nat.pow_pos (by decide)))
      (Nat.pow_pos (by decide)) ?_
    rwa [hquotient]

end Binary64

end Dialectic
