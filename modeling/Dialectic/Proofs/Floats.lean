import Dialectic.Proofs.Scanning
import Dialectic.Proofs.Shortest

/-!
# Floating-point numbers, as they are read and written

What is laid out for a decimal number is read as a decimal number of the same value, whether it is
laid out with a point or with an exponent (`exists_scanNumber_decimal`). A value of the 64-bit
format is written as a decimal that is rounded to it, so its text is read as the value
(`readsBack_eq_true`).
-/

namespace Dialectic.Json

open Text (ofChars)

variable {whole fraction tail : List Char} {x : Option Int} {d : Decimal}

/-! ## The parts of a number -/

/-- A fraction with its point, if there is one. -/
def pointed : List Char → List Char
  | [] => []
  | c :: cs => '.' :: c :: cs

/-- Digits without a zero in front are read to their end. -/
theorem takeWhole_ofChars_append {rest : Text} (hdigits : ∀ c ∈ whole, c.isDigit)
    (hzero : whole = ['0'] ∨ whole.head? ≠ some '0') (hne : whole ≠ [])
    (hrest : ∀ p ∈ rest.head?, digit? p = none) :
    takeWhole (ofChars whole ++ rest) = (whole.map fun c => c.toNat - '0'.toNat, rest) := by
  rcases hzero with rfl | hhead
  · rfl
  · rw [takeWhole, takeDigits_ofChars_append hdigits hrest]
    intro after heq
    cases whole with
    | nil => exact hne rfl
    | cons c cs =>
      rw [Text.ofChars_cons, List.cons_append, List.cons.injEq, CodePoint.char.injEq] at heq
      exact hhead (by rw [List.head?_cons, heq.1])

/-- A fraction is read with its point. -/
theorem takeFraction_pointed {rest : Text} (hdigits : ∀ c ∈ fraction, c.isDigit)
    (hrest : ∀ p ∈ rest.head?, digit? p = none ∧ p ≠ .char '.') :
    takeFraction (ofChars (pointed fraction) ++ rest) =
      (fraction.map fun c => c.toNat - '0'.toNat, rest) := by
  cases fraction with
  | nil =>
    rw [pointed, Text.ofChars_nil, List.nil_append, takeFraction]
    · rfl
    · rintro after rfl
      exact (hrest (.char '.') (by simp)).2 rfl
  | cons c cs =>
    rw [pointed, Text.ofChars_cons, List.cons_append, takeFraction,
      takeDigits_ofChars_append hdigits fun p hp => (hrest p hp).1]
    rfl

/-- An exponent is read with its sign. -/
theorem takeExponent_ofChars (top : Int) {digits : List Char} (hdigits : ∀ c ∈ digits, c.isDigit)
    (hne : digits ≠ []) (hvalue : Nat.ofDigitChars 10 digits 0 = top.natAbs) :
    takeExponent (ofChars ('e' :: (if top < 0 then '-' else '+') :: digits)) = (some top, []) := by
  have hsign : takeSign (ofChars ((if top < 0 then '-' else '+') :: digits)) =
      (decide (top < 0), ofChars digits) := by
    by_cases htop : top < 0
    · rw [if_pos htop, decide_eq_true htop]
      rfl
    · rw [if_neg htop, decide_eq_false htop]
      rfl
  have hread : takeDigits (ofChars digits) = (digits.map fun c => c.toNat - '0'.toNat, []) :=
    takeDigits_ofChars hdigits
  have hnatAbs : Text.ofDigits (digits.map fun c => c.toNat - '0'.toNat) = top.natAbs :=
    (ofDigits_map digits).trans hvalue
  rw [Text.ofChars_cons, takeExponent, if_pos (.inl rfl), hsign]
  simp only
  rw [hread]
  cases hmap : digits.map fun c => c.toNat - '0'.toNat with
  | nil => exact absurd (List.map_eq_nil_iff.1 hmap) hne
  | cons n ns =>
    rw [hmap] at hnatAbs
    simp only [hnatAbs, decide_eq_true_iff]
    split_ifs <;> congr <;> omega

/-- A number with a fraction or an exponent is read as the decimal number that its digits write. -/
theorem scanNumber_pointed (negative : Bool) (hwhole : ∀ c ∈ whole, c.isDigit)
    (hzero : whole = ['0'] ∨ whole.head? ≠ some '0') (hne : whole ≠ [])
    (hfraction : ∀ c ∈ fraction, c.isDigit) (htail : takeExponent (ofChars tail) = (x, []))
    (hhead : ∀ c ∈ tail.head?, c.isDigit = false ∧ c ≠ '.') (hfloat : fraction = [] → x ≠ none) :
    scanNumber negative (ofChars (whole ++ (pointed fraction ++ tail))) =
      some (.scalar (.float (Binary64.ofDecimal negative (Nat.ofDigitChars 10 (whole ++ fraction) 0)
        (x.getD 0 - fraction.length))), []) := by
  have htail' : ∀ p ∈ (ofChars tail).head?, digit? p = none ∧ p ≠ .char '.' := by
    cases tail with
    | nil => simp
    | cons c cs =>
      obtain ⟨hdigit, hpoint⟩ := hhead c rfl
      simpa [digit?_of_not_isDigit hdigit] using hpoint
  have hpointed : ∀ p ∈ (ofChars (pointed fraction) ++ ofChars tail).head?, digit? p = none := by
    cases fraction with
    | nil => exact fun p hp => (htail' p hp).1
    | cons c cs =>
      intro p hp
      obtain rfl : .char '.' = p := Option.some.inj hp
      rfl
  unfold scanNumber
  rw [Text.ofChars_append, Text.ofChars_append, takeWhole_ofChars_append hwhole hzero hne hpointed]
  simp only
  rw [takeFraction_pointed hfraction htail', htail, if_neg (by simpa using hne), if_neg,
    ← List.map_append, ofDigits_map, List.length_map]
  rintro ⟨hnil, hnone⟩
  exact hfloat (List.map_eq_nil_iff.1 hnil) hnone

/-! ## What is laid out -/

/-- A fraction with digits has a point. -/
theorem pointed_of_ne_nil (h : fraction ≠ []) : pointed fraction = '.' :: fraction := by
  cases fraction with
  | nil => exact absurd rfl h
  | cons c cs => rfl

/-- A number with digits after a point and no exponent. -/
theorem scanNumber_point (negative : Bool) (hwhole : ∀ c ∈ whole, c.isDigit)
    (hzero : whole = ['0'] ∨ whole.head? ≠ some '0') (hne : whole ≠ [])
    (hfraction : ∀ c ∈ fraction, c.isDigit) (hne' : fraction ≠ []) :
    scanNumber negative (ofChars (whole ++ '.' :: fraction)) =
      some (.scalar (.float (Binary64.ofDecimal negative (Nat.ofDigitChars 10 (whole ++ fraction) 0)
        (-fraction.length))), []) := by
  have h := @scanNumber_pointed whole fraction [] none negative hwhole hzero hne hfraction
    rfl (by simp) fun hnil => absurd hnil hne'
  rwa [List.append_nil, pointed_of_ne_nil hne', Option.getD_none, zero_sub] at h

/-- The digits of a number: the first of them is not zero. -/
structure AreDigitsOf (ds : List Char) (n : ℕ) : Prop where
  /-- All of them are digits. -/
  isDigit : ∀ c ∈ ds, c.isDigit
  /-- There is no zero in front. -/
  head?_ne : ds.head? ≠ some '0'
  /-- There is one at least. -/
  ne_nil : ds ≠ []
  /-- They write the number. -/
  value : Nat.ofDigitChars 10 ds 0 = n

variable {ds : List Char} {n : ℕ}

/-- A positive number is written with such digits. -/
theorem areDigitsOf_toDigits (h : 0 < n) : AreDigitsOf (Nat.toDigits 10 n) n :=
  ⟨fun _ => isDigit_of_mem_toDigits, head?_toDigits_ne h, Nat.toDigits_ne_nil,
    Nat.ofDigitChars_ten_toDigits⟩

/-- All digits stand after the point, with zeros between them. -/
theorem AreDigitsOf.scanNumber_after_point (h : AreDigitsOf ds n) (negative : Bool) (zeros : ℕ) :
    scanNumber negative (ofChars ('0' :: '.' :: (List.replicate zeros '0' ++ ds))) =
      some (.scalar (.float (Binary64.ofDecimal negative n (-(zeros + ds.length : ℕ)))), []) := by
  have hfraction : ∀ c ∈ List.replicate zeros '0' ++ ds, c.isDigit :=
    List.forall_mem_append.2 ⟨fun c => isDigit_of_mem_replicate, h.isDigit⟩
  have hn : Nat.ofDigitChars 10 (['0'] ++ (List.replicate zeros '0' ++ ds)) 0 = n := by
    rw [Nat.ofDigitChars_append, Nat.ofDigitChars_append, Nat.ofDigitChars_replicate_zero]
    exact h.value
  have hscan := scanNumber_point negative (List.forall_mem_singleton.2 rfl) (.inl rfl)
    (List.cons_ne_nil '0' []) hfraction (by simp [h.ne_nil])
  rwa [hn, List.length_append, List.length_replicate] at hscan

/-- All digits stand before the point, with zeros after them. -/
theorem AreDigitsOf.scanNumber_before_point (h : AreDigitsOf ds n) (negative : Bool) (zeros : ℕ) :
    scanNumber negative (ofChars (ds ++ List.replicate zeros '0' ++ '.' :: ['0'])) =
      some (.scalar (.float (Binary64.ofDecimal negative (10 * (10 ^ zeros * n)) (-1))), []) := by
  have hwhole : ∀ c ∈ ds ++ List.replicate zeros '0', c.isDigit :=
    List.forall_mem_append.2 ⟨h.isDigit, fun c => isDigit_of_mem_replicate⟩
  have hhead : (ds ++ List.replicate zeros '0').head? ≠ some '0' := by
    rw [List.head?_append_of_ne_nil _ h.ne_nil]
    exact h.head?_ne
  have hn : Nat.ofDigitChars 10 (ds ++ List.replicate zeros '0' ++ ['0']) 0 =
      10 * (10 ^ zeros * n) := by
    rw [Nat.ofDigitChars_append, Nat.ofDigitChars_append, h.value, Nat.ofDigitChars_replicate_zero]
    rfl
  rw [← hn]
  exact scanNumber_point negative hwhole (.inr hhead) (by simp [h.ne_nil])
    (List.forall_mem_singleton.2 rfl) (List.cons_ne_nil '0' [])

/-- The point stands between the digits. -/
theorem AreDigitsOf.scanNumber_across_point (h : AreDigitsOf ds n) (negative : Bool) {i : ℕ}
    (hpos : 0 < i) (hlt : i < ds.length) :
    scanNumber negative (ofChars (ds.take i ++ '.' :: ds.drop i)) =
      some (.scalar (.float (Binary64.ofDecimal negative n (-(ds.length - i : ℕ)))), []) := by
  have hwhole : ∀ c ∈ ds.take i, c.isDigit := fun c hc => h.isDigit c (List.mem_of_mem_take hc)
  have hfraction : ∀ c ∈ ds.drop i, c.isDigit := fun c hc => h.isDigit c (List.mem_of_mem_drop hc)
  have hhead : (ds.take i).head? ≠ some '0' := by
    rw [List.head?_take, if_neg hpos.ne']
    exact h.head?_ne
  have hne : ds.take i ≠ [] := fun hnil =>
    (List.take_eq_nil_iff.1 hnil).elim hpos.ne' h.ne_nil
  have hscan := scanNumber_point negative hwhole (.inr hhead) hne hfraction (by simpa using hlt)
  rwa [List.take_append_drop, h.value, List.length_drop] at hscan

/-- One digit stands before the point, if there is a point, and an exponent follows. -/
theorem AreDigitsOf.scanNumber_exponent {c : Char} {cs : List Char} (h : AreDigitsOf (c :: cs) n)
    (negative : Bool) (width : ℕ) (top : ℤ) :
    scanNumber negative (ofChars ([c] ++ (pointed cs ++
      'e' :: (if top < 0 then '-' else '+') :: paddedDigits width top.natAbs))) =
        some (.scalar (.float (Binary64.ofDecimal negative n (top - cs.length))), []) := by
  have hdigits := List.forall_mem_cons.1 h.isDigit
  have hpadded : ∀ c ∈ paddedDigits width top.natAbs, c.isDigit :=
    List.forall_mem_append.2 ⟨fun c => isDigit_of_mem_replicate, fun c => isDigit_of_mem_toDigits⟩
  have htop : Nat.ofDigitChars 10 (paddedDigits width top.natAbs) 0 = top.natAbs := by
    rw [paddedDigits, Nat.ofDigitChars_append, Nat.ofDigitChars_replicate_zero, Nat.mul_zero,
      Nat.ofDigitChars_ten_toDigits]
  have htail :=
    takeExponent_ofChars top hpadded (by simp [paddedDigits, Nat.toDigits_ne_nil]) htop
  have hscan := scanNumber_pointed negative (List.forall_mem_singleton.2 hdigits.1)
    (.inr h.head?_ne) (List.cons_ne_nil c []) hdigits.2 htail (by simp) (by simp)
  have hn : Nat.ofDigitChars 10 ([c] ++ cs) 0 = n := h.value
  rwa [hn, Option.getD_some] at hscan

/-- A decimal other than zero is laid out as a number of the same value. -/
theorem exists_scanNumber_decimal (layout : FloatLayout) (negative : Bool) (hd : 0 < d.digits) :
    ∃ n : ℕ, ∃ k : ℤ, 0 < n ∧ (n * 10 ^ k : ℚ) = d.value ∧
      scanNumber negative (ofChars (layout.decimal d)) =
        some (.scalar (.float (Binary64.ofDecimal negative n k)), []) := by
  have hds := areDigitsOf_toDigits hd
  have hpos : 0 < (Nat.toDigits 10 d.digits).length := List.length_pos_iff.2 hds.ne_nil
  unfold FloatLayout.decimal
  simp only
  generalize Nat.toDigits 10 d.digits = ds at *
  generalize htop : d.exponent + ds.length - 1 = top
  split
  · split
    · have hscan := hds.scanNumber_after_point negative (-top - 1).toNat
      rw [show (-((-top - 1).toNat + ds.length : ℕ) : ℤ) = d.exponent by omega] at hscan
      exact ⟨d.digits, d.exponent, hd, rfl, hscan⟩
    · by_cases hlong : ds.length ≤ top.toNat + 1
      · have hexponent : d.exponent = (top.toNat + 1 - ds.length : ℕ) := by omega
        rw [List.take_of_length_le hlong, List.drop_eq_nil_of_le hlong, if_pos rfl]
        refine ⟨10 * (10 ^ (top.toNat + 1 - ds.length) * d.digits), -1, by positivity, ?_,
          hds.scanNumber_before_point negative _⟩
        rw [Decimal.value, hexponent, zpow_natCast]
        push_cast
        ring
      · have hlt := not_le.1 hlong
        have hscan := hds.scanNumber_across_point negative (Nat.succ_pos top.toNat) hlt
        rw [show (-(ds.length - (top.toNat + 1) : ℕ) : ℤ) = d.exponent by omega] at hscan
        rw [Nat.sub_eq_zero_of_le hlt.le, List.replicate_zero, List.append_nil,
          if_neg (by simpa using hlt)]
        exact ⟨d.digits, d.exponent, hd, rfl, hscan⟩
  · cases ds with
    | nil => exact absurd rfl hds.ne_nil
    | cons c cs =>
      have hscan := hds.scanNumber_exponent negative layout.exponentWidth top
      have hexponent : top - (cs.length : ℤ) = d.exponent := by
        rw [← htop, List.length_cons]
        omega
      rw [hexponent] at hscan
      refine ⟨d.digits, d.exponent, hd, rfl, ?_⟩
      cases cs with
      | nil => exact hscan
      | cons c' cs => exact hscan

/-! ## All floating-point numbers -/

/-- What is read as a number begins with a digit. -/
theorem exists_isDigit_of_scanNumber {negative : Bool} {t : Text} {r : Token × Text}
    (h : scanNumber negative t = some r) : ∃ c t', t = .char c :: t' ∧ c.isDigit := by
  have hne : (takeWhole t).1 ≠ [] := by
    intro hnil
    rw [scanNumber, if_pos hnil] at h
    cases h
  by_cases hzero : ∃ after, t = .char '0' :: after
  · obtain ⟨after, rfl⟩ := hzero
    exact ⟨'0', after, rfl, rfl⟩
  · rw [takeWhole] at hne
    · cases t with
      | nil => exact absurd rfl hne
      | cons p t =>
        cases hp : digit? p with
        | none => exact absurd (by rw [takeDigits, hp]) hne
        | some n =>
          obtain ⟨c, rfl, hc⟩ := isDigit_of_digit? hp
          exact ⟨c, t, rfl, hc⟩
    · exact fun after heq => hzero ⟨after, heq⟩

/-- The decimal of a finite value is read as the value. -/
theorem scanNumber_shortest (negative : Bool) (e : Fin 2047) (f : Fin 4503599627370496) :
    scanNumber negative (ofChars (FloatLayout.standard.decimal (Decimal.shortest e f))) =
      some (.scalar (.float (.finite negative e f)), []) := by
  by_cases hne : Binary64.significand e f = 0
  · rw [Decimal.shortest_eq_zero hne, Binary64.eq_zero_of_significand_eq hne]
    cases negative <;> rfl
  · have hround := Decimal.roundsTo_shortest hne
    have hd : 0 < (Decimal.shortest e f).digits := by
      have hpos : 0 < (Decimal.shortest e f).value :=
        (zpow_pos (by norm_num) _).trans (hround.lt_of_ne hne)
      refine Nat.pos_of_ne_zero fun hzero => hpos.ne' ?_
      rw [Decimal.value, hzero, Nat.cast_zero, zero_mul]
    obtain ⟨n, k, hn, hvalue, hscan⟩ := exists_scanNumber_decimal .standard negative hd
    rw [hscan, Binary64.ofDecimal_eq negative hn]
    rwa [hvalue]

/-- The text of a floating-point number is read as the number, to its end. -/
theorem scanScalar_write_float (x : Binary64) :
    scanScalar (ofChars (write (.float x))) = some (.scalar (.float x), []) := by
  cases x with
  | nan => rfl
  | infinite negative => cases negative <;> rfl
  | finite negative e f =>
    have hscan := scanNumber_shortest negative e f
    obtain ⟨c, t, ht, hc⟩ := exists_isDigit_of_scanNumber hscan
    rw [write, FloatLayout.write, Text.ofChars_append, ht]
    rw [ht] at hscan
    cases negative with
    | false =>
      rw [if_neg Bool.false_ne_true, Text.ofChars_nil, List.nil_append, scanScalar_of_isDigit hc]
      exact hscan
    | true =>
      rw [if_pos rfl, Text.ofChars_cons, Text.ofChars_nil, List.cons_append, List.nil_append,
        scanScalar_minus_of_isDigit hc]
      exact hscan

/-- No two floating-point numbers have the same text. -/
theorem write_float_inj {x y : Binary64} (h : write (.float x) = write (.float y)) : x = y := by
  have hscan := scanScalar_write_float x
  rw [h, scanScalar_write_float] at hscan
  simpa using hscan.symm

/-- **Floating-point numbers.** The text of a floating-point number is read as the number. -/
theorem readsBack_eq_true (x : Binary64) : readsBack x = true := by
  rw [readsBack, scanScalar_write_float]
  exact decide_eq_true rfl

end Dialectic.Json
