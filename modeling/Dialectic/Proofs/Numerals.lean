import Dialectic.Json.Printer
import Mathlib.Algebra.Group.Nat.Defs

/-!
# The characters of numbers

An integer is written with digits and a minus sign, and no two integers alike (`write_int_inj`). A
floating-point number is written with digits, signs, a point and the mark of an exponent, or with
the letters of a name (`forall_mem_write_float`), and never with digits and minus signs alone
(`exists_mem_write_float`).
-/

namespace Dialectic

/-! ## Integers -/

/-- An integer is written if it lies between the powers of ten with the greatest number of digits as
exponent. -/
theorem Integer.isWritable_iff {n : Int} : isWritable n ↔ n.natAbs < 10 ^ digitLimit := by
  rw [isWritable, decide_eq_true_iff, Nat.length_toDigits_le_iff (by decide) (by decide)]

namespace Json

theorem isDigit_of_mem_toDigits {n : Nat} {c : Char} (h : c ∈ Nat.toDigits 10 n) : c.isDigit :=
  Nat.isDigit_of_mem_toDigits (by decide) (by decide) h

theorem isDigit_of_mem_replicate {n : Nat} {c : Char} (h : c ∈ List.replicate n '0') :
    c.isDigit := by
  rw [List.eq_of_mem_replicate h]
  rfl

theorem write_ofNat (n : Nat) : write (.int (Int.ofNat n)) = Nat.toDigits 10 n := by
  rw [write, Int.toString_eq_repr, Int.repr, Nat.toList_repr]

theorem write_negSucc (n : Nat) :
    write (.int (Int.negSucc n)) = '-' :: Nat.toDigits 10 (n + 1) := by
  rw [write, Int.toString_eq_repr, Int.repr, String.toList_append, Nat.toList_repr]
  rfl

/-- An integer is written with digits and a minus sign. -/
theorem isDigit_or_of_mem_write_int {n : Int} {c : Char} (h : c ∈ write (.int n)) :
    c.isDigit ∨ c = '-' := by
  cases n with
  | ofNat m =>
    rw [write_ofNat] at h
    exact .inl (isDigit_of_mem_toDigits h)
  | negSucc m =>
    rw [write_negSucc, List.mem_cons] at h
    exact h.symm.imp isDigit_of_mem_toDigits id

/-- Different whole numbers are written differently. -/
theorem write_int_inj {m n : Int} (h : write (.int m) = write (.int n)) : m = n := by
  have hdigits : ∀ {a b : Nat}, Nat.toDigits 10 a = Nat.toDigits 10 b → a = b := fun {a b} hab => by
    rw [← Nat.ofDigitChars_ten_toDigits (n := a), hab, Nat.ofDigitChars_ten_toDigits]
  have hminus : ∀ {a : Nat} {cs : List Char}, Nat.toDigits 10 a ≠ '-' :: cs := fun {a cs} ha => by
    have hdigit : '-'.isDigit := isDigit_of_mem_toDigits (n := a) (by simp [ha])
    exact absurd hdigit (by decide)
  cases m with
  | ofNat a =>
    cases n with
    | ofNat b =>
      rw [write_ofNat, write_ofNat] at h
      rw [hdigits h]
    | negSucc b =>
      rw [write_ofNat, write_negSucc] at h
      exact absurd h hminus
  | negSucc a =>
    cases n with
    | ofNat b =>
      rw [write_ofNat, write_negSucc] at h
      exact absurd h.symm hminus
    | negSucc b =>
      rw [write_negSucc, write_negSucc, List.cons.injEq] at h
      rw [Nat.succ.inj (hdigits h.2)]

/-! ## Floating-point numbers -/

/-- What holds of digits, the point, the mark of the exponent and the signs holds of all characters
of a decimal. -/
theorem forall_mem_decimal {P : Char → Prop} (hdigit : ∀ c, c.isDigit → P c) (hpoint : P '.')
    (hexponent : P 'e') (hminus : P '-') (hplus : P '+') (layout : FloatLayout) (d : Decimal) :
    ∀ c ∈ layout.decimal d, P c := by
  have hdigits : ∀ {n : Nat}, ∀ c ∈ Nat.toDigits 10 n, P c :=
    fun c hc => hdigit c (isDigit_of_mem_toDigits hc)
  have hzeros : ∀ n, ∀ c ∈ List.replicate n '0', P c :=
    fun n c hc => hdigit c (isDigit_of_mem_replicate hc)
  simp only [FloatLayout.decimal]
  split
  · split
    · simp only [List.forall_mem_cons, List.forall_mem_append]
      exact ⟨hdigit '0' (by decide), hpoint, hzeros _, hdigits⟩
    · simp only [List.forall_mem_cons, List.forall_mem_append]
      refine ⟨⟨fun c hc => hdigits c (List.mem_of_mem_take hc), hzeros _⟩, hpoint, ?_⟩
      split
      · exact List.forall_mem_singleton.2 (hdigit '0' (by decide))
      · exact fun c hc => hdigits c (List.mem_of_mem_drop hc)
  · rw [List.forall_mem_append, List.forall_mem_cons, List.forall_mem_cons, paddedDigits,
      List.forall_mem_append]
    refine ⟨?_, hexponent, ?_, hzeros _, hdigits⟩
    · have hall : ∀ c ∈ Nat.toDigits 10 d.digits, P c := hdigits
      split
      · rename_i first second rest heq
        simp only [heq, List.forall_mem_cons] at hall ⊢
        exact ⟨hall.1, hpoint, hall.2⟩
      · exact hall
    · split
      · exact hminus
      · exact hplus

/-- A decimal has a point or an exponent. -/
theorem mem_decimal (layout : FloatLayout) (d : Decimal) :
    '.' ∈ layout.decimal d ∨ 'e' ∈ layout.decimal d := by
  simp only [FloatLayout.decimal]
  split
  · split <;> simp
  · simp

/-- What holds of digits, of the signs of a number and of the letters of its three words holds of
all characters of a number. -/
theorem forall_mem_write_float {P : Char → Prop} (hdigit : ∀ c, c.isDigit → P c)
    (hsign : ∀ c ∈ ['.', 'e', '-', '+'], P c) (hnan : ∀ c ∈ ['N', 'a', 'N'], P c)
    (hinfinity : ∀ c ∈ ['I', 'n', 'f', 'i', 'n', 'i', 't', 'y'], P c) (x : Binary64) :
    ∀ c ∈ write (.float x), P c := by
  have hnegative : ∀ negative : Bool, ∀ c ∈ (if negative then ['-'] else []), P c := by
    intro negative
    cases negative with
    | false => simp
    | true => simpa using hsign '-' (by simp)
  cases x with
  | nan => exact hnan
  | infinite negative => exact List.forall_mem_append.2 ⟨hnegative negative, hinfinity⟩
  | finite negative e f =>
    refine List.forall_mem_append.2 ⟨hnegative negative, ?_⟩
    exact forall_mem_decimal hdigit (hsign _ (by simp)) (hsign _ (by simp)) (hsign _ (by simp))
      (hsign _ (by simp)) _ _

/-- No floating-point number is written like an integer. -/
theorem exists_mem_write_float (x : Binary64) :
    ∃ c ∈ write (.float x), ¬ (c.isDigit ∨ c = '-') := by
  cases x with
  | nan => exact ⟨'N', List.mem_cons_self .., by decide⟩
  | infinite negative => exact ⟨'I', List.mem_append_right _ (List.mem_cons_self ..), by decide⟩
  | finite negative e f =>
    rcases mem_decimal .standard (Decimal.shortest e f) with h | h
    · exact ⟨'.', List.mem_append_right _ h, by decide⟩
    · exact ⟨'e', List.mem_append_right _ h, by decide⟩

end Json

end Dialectic
