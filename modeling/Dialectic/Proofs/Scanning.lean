import Dialectic.Proofs.Numerals
import Dialectic.Proofs.Strings

/-!
# Values without parts, as they are read and written

A number or a word ends where no character follows that can be part of one; what is read up to there
does not depend on what follows (`scanScalar_append`). So the text of a value without parts is read
as that value, whatever mark or blank follows it, and its text as the text with its pairs joined
(`scanScalar_write`).
-/

namespace Dialectic.Json

open Text (ofChars)

/-! ## Where numbers and words end -/

/-- Whether a code point can be part of a number or of a word. -/
def isInner (p : CodePoint) : Bool := p.is fun c => c.isAlphanum || c = '+' || c = '-' || c = '.'

/-- Whether no number and no word goes on at the beginning of a text. -/
def Ends (t : Text) : Prop := ∀ p ∈ t.head?, isInner p = false

variable {rest : Text} {p : CodePoint} {c : Char}

theorem ends_cons (h : isInner p = false) : Ends (p :: rest) := by
  simpa [Ends] using h

theorem ne_of_isInner (h : isInner p = false) (hc : isInner (.char c)) : p ≠ .char c := by
  rintro rfl
  rw [h] at hc
  exact Bool.false_ne_true hc

theorem isDigit_iff : c.isDigit ↔ '0' ≤ c ∧ c ≤ '9' := by
  simp only [Char.isDigit, Bool.and_eq_true, decide_eq_true_eq, ge_iff_le]
  rfl

theorem digit?_of_isDigit (h : c.isDigit) : digit? (.char c) = some (c.toNat - '0'.toNat) := by
  rw [digit?, Text.asciiDigit?, if_pos (isDigit_iff.1 h)]
  rfl

theorem digit?_of_not_isDigit (h : c.isDigit = false) : digit? (.char c) = none := by
  rw [digit?, Text.asciiDigit?, if_neg]
  intro hc
  rw [isDigit_iff.2 hc] at h
  cases h

/-- What has a value as a digit is one. -/
theorem isDigit_of_digit? {n : Nat} (h : digit? p = some n) : ∃ c, p = .char c ∧ c.isDigit := by
  cases p with
  | surrogate u => cases h
  | char c =>
    cases hc : c.isDigit with
    | true => exact ⟨c, rfl, hc⟩
    | false =>
      rw [digit?_of_not_isDigit hc] at h
      cases h

theorem digit?_eq_none (h : isInner p = false) : digit? p = none := by
  cases p with
  | surrogate u => rfl
  | char c =>
    refine digit?_of_not_isDigit ?_
    rw [Bool.eq_false_iff]
    intro hdigit
    simp [isInner, Char.isAlphanum, hdigit] at h

/-! ## Numbers -/

/-- Digits end where something follows that cannot be part of a number. -/
theorem takeDigits_append (hrest : Ends rest) (t : Text) :
    takeDigits (t ++ rest) = ((takeDigits t).1, (takeDigits t).2 ++ rest) := by
  induction t with
  | nil =>
    cases rest with
    | nil => rfl
    | cons p rest => simp [takeDigits, digit?_eq_none (hrest p (by simp))]
  | cons p t ih =>
    simp only [List.cons_append, takeDigits]
    cases digit? p with
    | none => rfl
    | some d => simp [ih]

/-- So does a fraction. -/
theorem takeFraction_append (hrest : Ends rest) (t : Text) :
    takeFraction (t ++ rest) = ((takeFraction t).1, (takeFraction t).2 ++ rest) := by
  by_cases hpoint : ∃ after, t = .char '.' :: after
  · obtain ⟨after, rfl⟩ := hpoint
    simp only [List.cons_append, takeFraction, takeDigits_append hrest]
    rcases takeDigits after with ⟨_ | ⟨d, ds⟩, after'⟩ <;> rfl
  · rw [takeFraction, takeFraction]
    · rintro after rfl
      exact hpoint ⟨after, rfl⟩
    · intro after heq
      cases t with
      | nil =>
        rw [List.nil_append] at heq
        exact ne_of_isInner (hrest (.char '.') (by simp [heq])) (by decide) rfl
      | cons p t =>
        rw [List.cons_append, List.cons.injEq] at heq
        exact hpoint ⟨t, by rw [heq.1]⟩

theorem takeSign_append (hrest : Ends rest) (t : Text) :
    takeSign (t ++ rest) = ((takeSign t).1, (takeSign t).2 ++ rest) := by
  cases t with
  | nil =>
    rw [List.nil_append, takeSign]
    · rfl
    · rintro after rfl
      exact ne_of_isInner (hrest (.char '-') (by simp)) (by decide) rfl
    · rintro after rfl
      exact ne_of_isInner (hrest (.char '+') (by simp)) (by decide) rfl
  | cons p t =>
    rw [List.cons_append, takeSign.eq_def, takeSign.eq_def]
    split <;> simp_all

/-- So does an exponent. -/
theorem takeExponent_append (hrest : Ends rest) (t : Text) :
    takeExponent (t ++ rest) = ((takeExponent t).1, (takeExponent t).2 ++ rest) := by
  cases t with
  | nil =>
    cases rest with
    | nil => rfl
    | cons p rest =>
      have hp := hrest p (by simp)
      simp [takeExponent, ne_of_isInner hp (c := 'e') (by decide),
        ne_of_isInner hp (c := 'E') (by decide)]
  | cons p t =>
    simp only [List.cons_append, takeExponent]
    split
    · simp only [takeSign_append hrest, takeDigits_append hrest]
      rcases takeDigits (takeSign t).2 with ⟨_ | ⟨d, ds⟩, after⟩ <;> rfl
    · rfl

/-- So does a whole part. -/
theorem takeWhole_append (hrest : Ends rest) (t : Text) :
    takeWhole (t ++ rest) = ((takeWhole t).1, (takeWhole t).2 ++ rest) := by
  by_cases hzero : ∃ after, t = .char '0' :: after
  · obtain ⟨after, rfl⟩ := hzero
    rfl
  · rw [takeWhole, takeWhole, takeDigits_append hrest]
    · rintro after rfl
      exact hzero ⟨after, rfl⟩
    · intro after heq
      cases t with
      | nil =>
        rw [List.nil_append] at heq
        exact ne_of_isInner (hrest (.char '0') (by simp [heq])) (by decide) rfl
      | cons p t =>
        rw [List.cons_append, List.cons.injEq] at heq
        exact hzero ⟨t, by rw [heq.1]⟩

/-- A number is read as it is, whatever follows its end. -/
theorem scanNumber_append (hrest : Ends rest) (negative : Bool) (t : Text) :
    scanNumber negative (t ++ rest) = (scanNumber negative t).map fun r => (r.1, r.2 ++ rest) := by
  simp only [scanNumber, takeWhole_append hrest, takeFraction_append hrest,
    takeExponent_append hrest]
  split_ifs <;> rfl

/-! ## Words -/

/-- A word is found in a text just as in what follows it. -/
theorem after?_append (hrest : Ends rest) {w : List Char} (hw : ∀ c ∈ w, isInner (.char c))
    (t : Text) : after? w (t ++ rest) = (after? w t).map (· ++ rest) := by
  induction w generalizing t with
  | nil => rfl
  | cons c w ih =>
    cases t with
    | nil =>
      rw [List.nil_append]
      cases rest with
      | nil => rfl
      | cons p rest =>
        cases p with
        | surrogate u => rfl
        | char d =>
          have hne : c ≠ d := by
            rintro rfl
            exact ne_of_isInner (hrest (.char c) (by simp)) (hw c (by simp)) rfl
          simp [after?, hne]
    | cons p t =>
      cases p with
      | surrogate u => rfl
      | char d =>
        simp only [List.cons_append, after?]
        split
        · exact ih (fun d hd => hw d (List.mem_cons_of_mem _ hd)) t
        · rfl

theorem scanWord_append (hrest : Ends rest) {ws : List (List Char × Json)}
    (hws : ∀ w ∈ ws, ∀ c ∈ w.1, isInner (.char c)) (t : Text) :
    scanWord (t ++ rest) ws = (scanWord t ws).map fun r => (r.1, r.2 ++ rest) := by
  induction ws with
  | nil => rfl
  | cons w ws ih =>
    rw [scanWord, scanWord, after?_append hrest (hws w (by simp)), ih fun v hv =>
      hws v (List.mem_cons_of_mem _ hv)]
    cases after? w.1 t <;> rfl

theorem isInner_of_mem_words : ∀ w ∈ words, ∀ c ∈ w.1, isInner (.char c) := by
  have hall : words.all fun w => w.1.all fun c => isInner (.char c) := rfl
  simpa only [List.all_eq_true] using hall

/-! ## Values without parts -/

/-- After a minus sign comes a word or a number below zero. -/
theorem scanScalar_minus (t : Text) : scanScalar (.char '-' :: t) =
    ((scanWord (.char '-' :: t) words).map fun r => (.scalar r.1, r.2)).or (scanNumber true t) := by
  rw [scanScalar]
  cases scanWord (.char '-' :: t) words <;> rfl

/-- Without a quote or a minus sign comes a word or another number. -/
theorem scanScalar_of_ne (hquote : p ≠ .char '"') (hminus : p ≠ .char '-') (t : Text) :
    scanScalar (p :: t) =
      ((scanWord (p :: t) words).map fun r => (.scalar r.1, r.2)).or
        (scanNumber false (p :: t)) := by
  rw [scanScalar]
  · cases scanWord (p :: t) words <;> rfl
  · rintro after heq
    exact hquote (List.cons.inj heq).1
  · rintro after heq
    exact hminus (List.cons.inj heq).1

/-- A number or a word is read as it is, whatever follows its end. -/
theorem scanScalar_append (hrest : Ends rest) (hquote : p ≠ .char '"') (t : Text) :
    scanScalar (p :: t ++ rest) = (scanScalar (p :: t)).map fun r => (r.1, r.2 ++ rest) := by
  have hword := scanWord_append hrest isInner_of_mem_words (p :: t)
  by_cases hminus : p = .char '-'
  · subst hminus
    rw [List.cons_append] at hword ⊢
    rw [scanScalar_minus, scanScalar_minus, hword, scanNumber_append hrest]
    cases scanWord (.char '-' :: t) words <;> rfl
  · rw [List.cons_append] at hword ⊢
    rw [scanScalar_of_ne hquote hminus, scanScalar_of_ne hquote hminus, hword, ← List.cons_append,
      scanNumber_append hrest]
    cases scanWord (p :: t) words <;> rfl

/-- What can be no part of a number or of a word begins none. -/
theorem scanScalar_eq_none (h : isInner p = false) (hquote : p ≠ .char '"') :
    scanScalar (p :: rest) = none := by
  have hends : Ends (p :: rest) := ends_cons h
  have hword : scanWord (p :: rest) words = none := scanWord_append hends isInner_of_mem_words []
  have hnumber : scanNumber false (p :: rest) = none := scanNumber_append hends false []
  rw [scanScalar_of_ne hquote (ne_of_isInner h (by decide)), hword, hnumber]
  rfl

/-! ## Integers -/

/-- Digits are taken up to the first character that is none. -/
theorem takeDigits_ofChars_append {cs : List Char} (h : ∀ c ∈ cs, c.isDigit)
    (hrest : ∀ p ∈ rest.head?, digit? p = none) :
    takeDigits (ofChars cs ++ rest) = (cs.map fun c => c.toNat - '0'.toNat, rest) := by
  induction cs with
  | nil =>
    cases rest with
    | nil => rfl
    | cons p rest => simp [takeDigits, hrest p (by simp)]
  | cons c cs ih =>
    rw [Text.ofChars_cons, List.cons_append, takeDigits, digit?_of_isDigit (h c (by simp)),
      ih fun d hd => h d (List.mem_cons_of_mem _ hd)]
    rfl

theorem takeDigits_ofChars {cs : List Char} (h : ∀ c ∈ cs, c.isDigit) :
    takeDigits (ofChars cs) = (cs.map fun c => c.toNat - '0'.toNat, []) := by
  rw [← List.append_nil (ofChars cs)]
  exact takeDigits_ofChars_append h (by simp)

/-- Digits have the value of the number that they write. -/
theorem ofDigits_map (cs : List Char) :
    Text.ofDigits (cs.map fun c => c.toNat - '0'.toNat) = Nat.ofDigitChars 10 cs 0 := by
  rw [Text.ofDigits, List.foldl_map]
  rfl

/-- A positive number does not begin with a zero. -/
theorem head?_toDigits_ne {n : Nat} (h : 0 < n) : (Nat.toDigits 10 n).head? ≠ some '0' := by
  induction n using Nat.strongRecOn with
  | ind n ih =>
    by_cases hn : n < 10
    · rw [Nat.toDigits_of_lt_base hn, List.head?_cons, Ne, Option.some.injEq, Nat.digitChar_eq_zero]
      omega
    · have hne := ih (n / 10) (by omega) (by omega)
      rw [Nat.toDigits_of_base_le (by decide) (by omega)]
      cases hds : Nat.toDigits 10 (n / 10) with
      | nil => exact absurd hds Nat.toDigits_ne_nil
      | cons c cs => rwa [hds] at hne

theorem takeWhole_toDigits (n : Nat) :
    takeWhole (ofChars (Nat.toDigits 10 n)) =
      ((Nat.toDigits 10 n).map fun c => c.toNat - '0'.toNat, []) := by
  rcases Nat.eq_zero_or_pos n with rfl | hn
  · rfl
  · rw [takeWhole, takeDigits_ofChars fun c => isDigit_of_mem_toDigits]
    intro after heq
    cases hds : Nat.toDigits 10 n with
    | nil => exact Nat.toDigits_ne_nil hds
    | cons c cs =>
      rw [hds, Text.ofChars_cons, List.cons.injEq, CodePoint.char.injEq] at heq
      exact head?_toDigits_ne hn (by rw [hds, List.head?_cons, heq.1])

/-- A number that is written in decimal is read back, if it is not too long. -/
theorem scanNumber_toDigits (negative : Bool) {n : Nat}
    (h : (Nat.toDigits 10 n).length ≤ Integer.digitLimit) :
    scanNumber negative (ofChars (Nat.toDigits 10 n)) =
      some (.scalar (.int (if negative then -(n : Int) else n)), []) := by
  have hvalue : Text.ofDigits ((Nat.toDigits 10 n).map fun c => c.toNat - '0'.toNat) = n := by
    rw [ofDigits_map, Nat.ofDigitChars_ten_toDigits]
  simp only [scanNumber, takeWhole_toDigits]
  rw [if_neg (by simp [Nat.toDigits_ne_nil]), if_pos (by simp [takeFraction, takeExponent]),
    integerToken, if_neg (by simpa using h), hvalue]
  rfl

theorem exists_toDigits_eq (n : Nat) : ∃ c cs, Nat.toDigits 10 n = c :: cs ∧ c.isDigit := by
  cases hds : Nat.toDigits 10 n with
  | nil => exact absurd hds Nat.toDigits_ne_nil
  | cons c cs => exact ⟨c, cs, rfl, isDigit_of_mem_toDigits (n := n) (by simp [hds])⟩

theorem ne_of_isDigit {d : Char} (h : c.isDigit) (hd : d.isDigit = false) : d ≠ c := by
  rintro rfl
  rw [hd] at h
  exact Bool.false_ne_true h

/-- No word begins with a digit. -/
theorem scanScalar_of_isDigit {c : Char} (h : c.isDigit) (t : Text) :
    scanScalar (.char c :: t) = scanNumber false (.char c :: t) := by
  have hword : scanWord (.char c :: t) words = none := by
    simp [scanWord, words, after?, ne_of_isDigit h]
  rw [scanScalar_of_ne, hword]
  · rfl
  · simpa using (ne_of_isDigit h (d := '"') rfl).symm
  · simpa using (ne_of_isDigit h (d := '-') rfl).symm

/-- No word begins with a minus sign and a digit. -/
theorem scanScalar_minus_of_isDigit {c : Char} (h : c.isDigit) (t : Text) :
    scanScalar (.char '-' :: .char c :: t) = scanNumber true (.char c :: t) := by
  have hword : scanWord (.char '-' :: .char c :: t) words = none := by
    simp [scanWord, words, after?, ne_of_isDigit h]
  rw [scanScalar_minus, hword]
  rfl

/-- The text of an integer is read as the integer. -/
theorem scanScalar_int {n : Int} (h : Integer.isWritable n) :
    scanScalar (ofChars (write (.int n))) = some (.scalar (.int n), []) := by
  have hlength : (Nat.toDigits 10 n.natAbs).length ≤ Integer.digitLimit := of_decide_eq_true h
  obtain ⟨c, cs, hds, hc⟩ := exists_toDigits_eq n.natAbs
  cases n with
  | ofNat m =>
    rw [write_ofNat, show Nat.toDigits 10 m = c :: cs from hds, Text.ofChars_cons,
      scanScalar_of_isDigit hc, ← Text.ofChars_cons, ← hds]
    exact scanNumber_toDigits false hlength
  | negSucc m =>
    rw [write_negSucc, show Nat.toDigits 10 (m + 1) = c :: cs from hds, Text.ofChars_cons,
      Text.ofChars_cons, scanScalar_minus_of_isDigit hc, ← Text.ofChars_cons, ← hds]
    exact scanNumber_toDigits true hlength

/-! ## All values without parts -/

/-- Whether the text of a floating-point number is read as that number. -/
def readsBack (x : Binary64) : Bool :=
  match scanScalar (ofChars (write (.float x))) with
  | some (.scalar (.float y), []) => x = y
  | _ => false

/-- Whether a value has no parts and its text is read: no integer has too many digits, and a
floating-point number is read back. -/
def isLegible : Json → Bool
  | .int n => Integer.isWritable n
  | .float x => readsBack x
  | .arr _ => false
  | .obj _ => false
  | _ => true

/-- A value in which two surrogates of a text that make a pair have become the character of the
pair. -/
def joined : Json → Json
  | .str t => .str t.joined
  | v => v

/-- So is a float that its own text leads back to. -/
theorem scanScalar_float {x : Binary64} (h : readsBack x) :
    scanScalar (ofChars (write (.float x))) = some (.scalar (.float x), []) := by
  unfold readsBack at h
  split at h
  · rename_i y heq
    rw [heq, of_decide_eq_true h]
  · exact absurd h Bool.false_ne_true

/-- What is written for a number or a word is read as it is, whatever follows its end. -/
theorem scanScalar_append_of (hrest : Ends rest) {t : Text} {v : Json}
    (ht : scanScalar t = some (.scalar v, [])) (hv : ∀ s, v ≠ .str s) :
    scanScalar (t ++ rest) = some (.scalar v, rest) := by
  cases t with
  | nil => simp [scanScalar, scanWord, words, after?, scanNumber, takeWhole, takeDigits] at ht
  | cons p t =>
    have hquote : p ≠ .char '"' := by
      rintro rfl
      rw [scanScalar, Option.map_eq_some_iff] at ht
      obtain ⟨r, -, hr⟩ := ht
      simp only [Prod.mk.injEq, Token.scalar.injEq] at hr
      exact hv r.1 hr.1.symm
    rw [scanScalar_append hrest hquote, ht]
    rfl

/-- **Values without parts.** The text of such a value is read as the value with its pairs joined,
whatever mark or blank follows it. -/
theorem scanScalar_write {v : Json} (h : v.isLegible) (hrest : Ends rest) :
    scanScalar (ofChars v.write ++ rest) = some (.scalar v.joined, rest) := by
  cases v with
  | null => exact scanScalar_append_of hrest rfl (by simp [joined])
  | bool b => cases b <;> exact scanScalar_append_of hrest rfl (by simp [joined])
  | int n => exact scanScalar_append_of hrest (scanScalar_int h) (by simp [joined])
  | float x => exact scanScalar_append_of hrest (scanScalar_float h) (by simp [joined])
  | str t =>
    have htext : ofChars (write (.str t)) ++ rest =
        .char '"' :: (ofChars (t.flatMap escapePoint) ++ .char '"' :: rest) := by
      simp [write, writeString]
    rw [htext, scanScalar, scanString_escaped]
    rfl
  | arr items => exact absurd h Bool.false_ne_true
  | obj fields => exact absurd h Bool.false_ne_true

/-- A value without parts is written like the value with its pairs joined. -/
theorem write_joined (v : Json) : write v.joined = write v := by
  cases v with
  | str t => rw [joined, write, write, writeString, writeString, flatMap_escapePoint_joined]
  | _ => rfl

end Dialectic.Json
