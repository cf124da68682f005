import Dialectic.Number.Shortest
import Dialectic.Proofs.Rounding

/-!
# Shortest decimals are rounded to the values they stand for

The decimal with the fewest digits is looked for on grids that get finer. What is found on a grid
lies between the points half-way to the values next to the one that it stands for
(`onGrid?_eq_some`), and on a grid that is finer than the way between these points something is
found (`exists_onGrid?_eq`). Seventeen digits are fine enough (`roundsTo_shortest`).
-/

namespace Dialectic.Decimal

open Binary64 (IsFirst RoundsTo lower ratio scale significand size unit upper)

variable {d : Decimal} {k : ℤ} {four low high den num c : ℕ} {closed : Bool}

/-! ## Values of decimals -/

/-- The number that a decimal is. -/
def value (d : Decimal) : ℚ := d.digits * 10 ^ d.exponent

/-- Dropping zeros at the end keeps the value. -/
theorem value_normalize (fuel : ℕ) (d : Decimal) : (normalize fuel d).value = d.value := by
  induction fuel generalizing d with
  | zero => rfl
  | succ fuel ih =>
    unfold normalize
    split
    · rename_i h
      obtain ⟨n, hn⟩ := Nat.dvd_of_mod_eq_zero h.2
      rw [ih, value, value, hn, Nat.mul_div_cancel_left n (by decide), zpow_add_one₀ (by norm_num)]
      push_cast
      ring
    · rfl

/-! ## Grids -/

/-- A number on a grid, over the common denominator, is compared like the number itself. -/
theorem le_grid_iff (hden : 0 < den) (k : ℤ) (low c : ℕ) :
    low * Nat.pow 10 (-k).toNat ≤ c * (4 * den * Nat.pow 10 k.toNat) ↔
      (low / (4 * den) : ℚ) ≤ c * 10 ^ k := by
  have hq : (0 : ℚ) < den := by exact_mod_cast hden
  rw [zpow_eq_div 10 k, mul_div_assoc', div_le_div_iff₀ (by positivity) (by positivity),
    mul_assoc (c : ℚ), mul_comm ((10 : ℚ) ^ k.toNat)]
  exact_mod_cast Iff.rfl

/-- A decimal is compared with a quotient in natural numbers. -/
theorem grid_le_iff (hden : 0 < den) (k : ℤ) (high c : ℕ) :
    c * (4 * den * Nat.pow 10 k.toNat) ≤ high * Nat.pow 10 (-k).toNat ↔
      (c * 10 ^ k : ℚ) ≤ high / (4 * den) := by
  have hq : (0 : ℚ) < den := by exact_mod_cast hden
  rw [zpow_eq_div 10 k, mul_div_assoc', div_le_div_iff₀ (by positivity) (by positivity),
    mul_assoc (c : ℚ), mul_comm ((10 : ℚ) ^ k.toNat)]
  exact_mod_cast Iff.rfl

/-- So is the test whether it lies between the two bounds. -/
theorem fits_iff (hden : 0 < den) :
    (if closed = true then low * Nat.pow 10 (-k).toNat ≤ c * (4 * den * Nat.pow 10 k.toNat) &&
        c * (4 * den * Nat.pow 10 k.toNat) ≤ high * Nat.pow 10 (-k).toNat
      else low * Nat.pow 10 (-k).toNat < c * (4 * den * Nat.pow 10 k.toNat) &&
        c * (4 * den * Nat.pow 10 k.toNat) < high * Nat.pow 10 (-k).toNat) = true ↔
      IsBetween closed (low / (4 * den)) (high / (4 * den)) (c * 10 ^ k) := by
  cases closed with
  | true =>
    rw [if_pos rfl, Bool.and_eq_true, decide_eq_true_iff, decide_eq_true_iff, le_grid_iff hden,
      grid_le_iff hden]
    rfl
  | false =>
    rw [if_neg Bool.false_ne_true, Bool.and_eq_true, decide_eq_true_iff, decide_eq_true_iff,
      ← not_le, ← not_le, le_grid_iff hden, grid_le_iff hden, not_le, not_le]
    rfl

/-- What is found on a grid lies between the ends. -/
theorem onGrid?_eq_some (hden : 0 < den) (h : onGrid? four low high den closed k = some d) :
    IsBetween closed (low / (4 * den)) (high / (4 * den)) d.value := by
  unfold onGrid? at h
  simp only at h
  split at h
  · simp at h
  · rename_i hbelow _
    obtain rfl := Option.some.inj h
    exact (fits_iff hden).1 hbelow
  · rename_i _ habove
    obtain rfl := Option.some.inj h
    exact (fits_iff hden).1 habove
  · rename_i hbelow habove
    split_ifs at h
    · obtain rfl := Option.some.inj h
      exact (fits_iff hden).1 hbelow
    · obtain rfl := Option.some.inj h
      exact (fits_iff hden).1 habove
    · -- Of two that are equally near the even one is taken.
      obtain rfl := Option.some.inj h
      rcases Nat.mod_two_eq_zero_or_one
        (four * Nat.pow 10 (-k).toNat / (4 * den * Nat.pow 10 k.toNat)) with hmod | hmod
      · rw [hmod]
        exact (fits_iff hden).1 hbelow
      · rw [hmod]
        exact (fits_iff hden).1 habove

/-- If the ends are further apart than the points of a grid, one of these lies between them. -/
theorem exists_onGrid?_eq (hden : 0 < den) (hlow : low < four) (hhigh : four < high)
    (hk : (10 : ℚ) ^ k < high / (4 * den) - low / (4 * den)) :
    ∃ d, onGrid? four low high den closed k = some d := by
  have hq : (0 : ℚ) < 4 * den := by
    have : (0 : ℚ) < den := by exact_mod_cast hden
    positivity
  have hunit : 0 < 4 * den * Nat.pow 10 k.toNat := Nat.mul_pos (by omega) (Nat.pow_pos (by decide))
  set below := four * Nat.pow 10 (-k).toNat / (4 * den * Nat.pow 10 k.toNat) with hbelow
  have hle : (below * 10 ^ k : ℚ) ≤ four / (4 * den) :=
    (grid_le_iff hden k four below).1 (Nat.div_mul_le_self ..)
  have hlt : (four / (4 * den) : ℚ) < (below + 1 : ℕ) * 10 ^ k := by
    rw [← not_le, ← grid_le_iff hden, not_le]
    exact Nat.lt_mul_of_div_lt (Nat.lt_succ_self below) hunit
  have hlow' : (low / (4 * den) : ℚ) < four / (4 * den) := by
    gcongr
  have hhigh' : (four / (4 * den) : ℚ) < high / (4 * den) := by
    gcongr
  unfold onGrid?
  simp only [← hbelow]
  split
  · -- Both points next to the value would lie beyond the ends.
    rename_i hbelow habove
    have hout : ∀ {b : Bool}, b = false → ¬ b = true := by simp
    have hbelow' : (below * 10 ^ k : ℚ) ≤ low / (4 * den) := by
      refine not_lt.1 fun hnot => hout hbelow ((fits_iff hden).2 ?_)
      exact isBetween_of_lt hnot (hle.trans_lt hhigh')
    have habove' : (high / (4 * den) : ℚ) ≤ (below + 1 : ℕ) * 10 ^ k := by
      refine not_lt.1 fun hnot => hout habove ((fits_iff hden).2 ?_)
      exact isBetween_of_lt (hlow'.trans hlt) hnot
    push_cast at habove'
    linarith
  · exact ⟨_, rfl⟩
  · exact ⟨_, rfl⟩
  · split_ifs <;> exact ⟨_, rfl⟩

/-! ## The leading digit -/

/-- The digits before the point of a quotient that was shifted tell between which powers of ten it
lies. -/
theorem length_toDigits_shift (hden : 0 < den) (n : ℕ) (h : (10 : ℚ) ^ (-(n : ℤ)) ≤ num / den) :
    (10 : ℚ) ^ ((Nat.toDigits 10 (num * Nat.pow 10 n / den)).length - 1 - n : ℤ) ≤ num / den ∧
      (num : ℚ) / den < 10 ^ ((Nat.toDigits 10 (num * Nat.pow 10 n / den)).length - n : ℤ) := by
  have hq : (0 : ℚ) < den := by exact_mod_cast hden
  have hten : (0 : ℚ) < 10 ^ (n : ℤ) := zpow_pos (by norm_num) _
  have hshift : ((Nat.pow 10 n : ℕ) : ℚ) = 10 ^ (n : ℤ) := by
    rw [zpow_natCast, Nat.pow_eq, Nat.cast_pow, Nat.cast_ofNat]
  set whole := num * Nat.pow 10 n / den
  have hle : (whole : ℚ) ≤ num / den * 10 ^ (n : ℤ) := by
    have : (whole * den : ℚ) ≤ num * Nat.pow 10 n := by
      exact_mod_cast Nat.div_mul_le_self (num * Nat.pow 10 n) den
    rwa [← hshift, div_mul_eq_mul_div, le_div_iff₀ hq]
  have hlt : num / den * 10 ^ (n : ℤ) < (whole + 1 : ℚ) := by
    have : (num * Nat.pow 10 n : ℚ) < (whole + 1) * den := by
      exact_mod_cast Nat.lt_mul_of_div_lt (Nat.lt_succ_self whole) hden
    rwa [← hshift, div_mul_eq_mul_div, div_lt_iff₀ hq]
  have hpos : 0 < whole := by
    have hone : (1 : ℚ) ≤ num / den * 10 ^ (n : ℤ) := by
      rw [← mul_le_mul_iff_left₀ hten, ← zpow_add₀ (by norm_num)] at h
      simpa using h
    have : (0 : ℚ) < whole := by linarith
    exact_mod_cast this
  obtain ⟨hlow, hhigh⟩ := length_toDigits_spec hpos
  have hhigh' : (whole + 1 : ℚ) ≤ 10 ^ ((Nat.toDigits 10 whole).length : ℤ) := by
    rw [zpow_natCast] at hhigh ⊢
    exact_mod_cast hhigh
  constructor
  · rw [zpow_sub₀ (by norm_num), div_le_iff₀ hten]
    exact hlow.trans hle
  · rw [zpow_sub₀ (by norm_num), lt_div_iff₀ hten]
    exact hlt.trans_le hhigh'

/-- A quotient that is not too small lies between the power of ten of its leading digit and the next
one. -/
theorem leadingExponent_spec (hden : 0 < den) (h : (10 : ℚ) ^ (-400 : ℤ) ≤ num / den) :
    (10 : ℚ) ^ leadingExponent num den ≤ num / den ∧
      (num : ℚ) / den < 10 ^ (leadingExponent num den + 1) := by
  -- The shift is named, so that the power is not computed.
  obtain ⟨n, hn⟩ : ∃ n : ℕ, 400 = n := ⟨400, rfl⟩
  obtain ⟨hlow, hhigh⟩ := length_toDigits_shift hden n (by rwa [← hn, Nat.cast_ofNat])
  unfold leadingExponent
  rw [hn]
  constructor
  · exact le_of_eq_of_le (congrArg _ (by omega)) hlow
  · exact lt_of_lt_of_eq hhigh (congrArg _ (by omega))

/-! ## The shortest decimal -/

section Shortest

variable {e : Fin 2047} {f : Fin 4503599627370496}

theorem pos_of_ratio_eq (h : ratio e f = (num, den)) : 0 < den := by
  obtain rfl : _ = den := congrArg Prod.snd h
  exact Nat.pow_pos (by decide)

/-- The size of a number as a quotient. -/
theorem size_eq_div (h : ratio e f = (num, den)) : size e f = num / den := by
  obtain ⟨rfl, rfl⟩ := Prod.mk.inj h
  rw [size, unit, zpow_eq_div 2]
  push_cast [Nat.pow_eq]
  rw [mul_div_assoc]

/-- Its last place as a quotient. -/
theorem unit_eq_div (h : ratio e f = (num, den)) (hne : significand e f ≠ 0) :
    unit e = (num / significand e f : ℕ) / den := by
  obtain ⟨rfl, rfl⟩ := Prod.mk.inj h
  rw [unit, zpow_eq_div 2, Nat.mul_div_cancel_left _ (Nat.pos_of_ne_zero hne)]
  push_cast [Nat.pow_eq]
  rfl

theorem shortest_eq_zero (h : significand e f = 0) : shortest e f = ⟨0, 0⟩ := by
  rw [shortest, ratio, h, Nat.zero_mul]
  exact if_pos rfl

/-- The points half-way to the values next to a value, over the common denominator. -/
theorem ends_eq_div (h : ratio e f = (num, den)) (hne : significand e f ≠ 0) :
    lower e f =
      (4 * num - (if f.val = 0 ∧ 1 < e.val then num / significand e f
        else 2 * (num / significand e f)) : ℕ) / (4 * den) ∧
      upper e f = (4 * num + 2 * (num / significand e f) : ℕ) / (4 * den) := by
  have hden := pos_of_ratio_eq h
  have hq : (0 : ℚ) < den := by exact_mod_cast hden
  have hle : num / significand e f ≤ num := Nat.div_le_self ..
  rw [lower, upper, size_eq_div h, unit_eq_div h hne]
  generalize num / significand e f = ulp at hle
  constructor
  · by_cases hfirst : f.val = 0 ∧ 1 < e.val
    · rw [if_pos hfirst, if_pos (show IsFirst e f from hfirst), Nat.cast_sub (by omega)]
      push_cast
      field_simp
    · rw [if_neg hfirst, if_neg (show ¬ IsFirst e f from hfirst), Nat.cast_sub (by omega)]
      push_cast
      field_simp
      ring
  · push_cast
    field_simp
    ring

/-- Seventeen digits are fine enough. -/
theorem ten_pow_lt (h : ratio e f = (num, den)) (hne : significand e f ≠ 0) :
    (10 : ℚ) ^ (leadingExponent num den - 16) < upper e f - lower e f := by
  have hunit := Binary64.unit_pos e
  have hsmall : (10 : ℚ) ^ (-400 : ℤ) ≤ num / den := by
    rw [← size_eq_div h]
    exact ((Binary64.roundsTo_size e f).lt_of_ne hne).le
  have hsize : (10 : ℚ) ^ leadingExponent num den ≤ significand e f * unit e := by
    rw [← size, size_eq_div h]
    exact (leadingExponent_spec (pos_of_ratio_eq h) hsmall).1
  have hpow : (10 : ℚ) ^ (leadingExponent num den - 16) =
      10 ^ leadingExponent num den / 10 ^ 16 := by
    rw [zpow_sub₀ (by norm_num)]
    norm_num
  rw [hpow, div_lt_iff₀ (by norm_num), lower, upper]
  split
  · rename_i hfirst
    rw [hfirst.significand_eq] at hsize
    push_cast at hsize
    linarith
  · have hlt : (significand e f : ℚ) ≤ 9007199254740992 := by
      exact_mod_cast (Binary64.significand_lt e f).le
    have := mul_le_mul_of_nonneg_right hlt hunit.le
    linarith

/-- **Shortest decimals.** The shortest decimal of a value other than zero is rounded to the
value. -/
theorem roundsTo_shortest (hne : significand e f ≠ 0) : RoundsTo e f (shortest e f).value := by
  obtain ⟨num, den, h⟩ : ∃ num den, ratio e f = (num, den) := ⟨_, _, rfl⟩
  have hden := pos_of_ratio_eq h
  obtain ⟨hlower, hupper⟩ := ends_eq_div h hne
  have hgrid := ten_pow_lt h hne
  have hle : significand e f ≤ num := by
    obtain rfl : _ = num := congrArg Prod.fst h
    exact Nat.le_mul_of_pos_right _ (Nat.pow_pos (by decide))
  have hnum : 0 < num := (Nat.pos_of_ne_zero hne).trans_le hle
  have hulp : 0 < num / significand e f := Nat.div_pos hle (Nat.pos_of_ne_zero hne)
  have hbelow : (4 * num - if f.val = 0 ∧ 1 < e.val then num / significand e f
      else 2 * (num / significand e f)) < 4 * num := by
    split <;> omega
  have habove : 4 * num < 4 * num + 2 * (num / significand e f) := by omega
  rw [hlower, hupper] at hgrid
  rw [RoundsTo, hlower, hupper, shortest, h]
  simp only [if_neg hnum.ne']
  generalize (4 * num - if f.val = 0 ∧ 1 < e.val then num / significand e f
    else 2 * (num / significand e f)) = low at *
  generalize 4 * num + 2 * (num / significand e f) = high at *
  split
  · rename_i d hfound
    obtain ⟨k, -, hd⟩ := List.exists_of_findSome?_eq_some hfound
    rw [value_normalize]
    exact onGrid?_eq_some hden hd
  · rename_i hnone
    rw [List.findSome?_eq_none_iff] at hnone
    have hmem : leadingExponent num den - 16 ∈ (List.range 17).map fun n =>
        leadingExponent num den - (n : ℕ) :=
      List.mem_map.2 ⟨16, by decide, rfl⟩
    obtain ⟨d, hd⟩ := exists_onGrid?_eq hden hbelow habove hgrid
    rw [hnone _ hmem] at hd
    cases hd

end Shortest

end Dialectic.Decimal
