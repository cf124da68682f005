import Dialectic.Proofs.Tokens
import Dialectic.Text.Blank

/-!
# Blanks around a JSON text

If a text with blanks before and after it is read as a value, then so is the text by itself
(`parseWithin_of_blanks`). The blanks that JSON does not know are refused outside strings, and no
string ends in the blanks, which have no quotes. So a line that is no JSON text when it is trimmed
is none before.
-/

namespace Dialectic.Json

open Text (ofChars isBlank)

variable {rest : Text} {t : Token}

/-! ## Tokens and blanks -/

/-- No blank is part of a number or a word. -/
theorem isInner_of_isBlank {c : Char} (h : isBlank c) : isInner (.char c) = false := by
  cases hinner : isInner (.char c) with
  | false => rfl
  | true =>
    simp only [isInner, CodePoint.is_char, Bool.or_eq_true, Text.isAlphanum_iff,
      decide_eq_true_eq] at hinner
    simp only [isBlank, Text.isWhite, Bool.or_eq_true, Bool.and_eq_true, decide_eq_true_eq,
      beq_iff_eq] at h
    -- All the letters, digits and signs lie between two blanks of the table.
    have hrange : 0x20 < c.toNat ∧ c.toNat < 0x7f := by
      rcases hinner with ((halnum | rfl) | rfl) | rfl
      · omega
      · decide
      · decide
      · decide
    omega

/-- No mark is a blank. -/
theorem not_isBlank_of_mark? {p : CodePoint} (h : mark? p = some t) : p.is isBlank = false := by
  unfold mark? at h
  split at h <;> first | rfl | exact absurd h (by simp)

/-- A blank before a text is passed over or cannot be read. -/
theorem tokens_of_isBlank {p : CodePoint} (h : p.is isBlank) (rest : Text) :
    tokens (p :: rest) = tokens rest ∨ tokens (p :: rest) = [.junk] := by
  cases p with
  | surrogate u => exact absurd h (by simp)
  | char c =>
    cases hspace : isSpace (.char c) with
    | true => exact .inl (tokens_of_isSpace hspace)
    | false =>
      have hmark : mark? (.char c) = none := by
        cases hmark : mark? (.char c) with
        | none => rfl
        | some t => exact absurd h (by simp [not_isBlank_of_mark? hmark])
      have hquote : CodePoint.char c ≠ .char '"' := by
        rintro heq
        rw [heq] at h
        exact absurd h (by decide)
      exact .inr (tokens_of_none hspace hmark (scanScalar_eq_none (isInner_of_isBlank h) hquote))

/-- What is read as a value without parts does not end in blanks. -/
theorem scanScalar_append_blanks {b : Text} (hb : ∀ p ∈ b, p.is isBlank) (p : CodePoint)
    (cs : Text) :
    scanScalar (p :: (cs ++ b)) = (scanScalar (p :: cs)).map (fun r => (r.1, r.2 ++ b)) ∨
      scanScalar (p :: (cs ++ b)) = none := by
  by_cases hquote : p = .char '"'
  · subst hquote
    have hnone : .char '"' ∉ b := fun hq => absurd (hb _ hq) (by decide)
    rw [scanScalar, scanScalar]
    cases hscan : scanString [] (cs ++ b) with
    | none => exact .inr rfl
    | some r =>
      obtain ⟨s, after⟩ := r
      obtain ⟨after', hscan', rfl⟩ := exists_scanString_of_append hnone hscan
      rw [hscan']
      exact .inl rfl
  · have hends : Ends b := by
      intro q hq
      have hblank := hb q (List.mem_of_mem_head? hq)
      cases q with
      | surrogate u => rfl
      | char c => exact isInner_of_isBlank hblank
    exact .inl (scanScalar_append hends hquote cs)

/-- Blanks in front of a text leave its tokens alone, if none of them is junk. -/
theorem tokens_blanks_append {a : Text} (ha : ∀ p ∈ a, p.is isBlank) {cs : Text}
    (hjunk : .junk ∉ tokens (a ++ cs)) : tokens (a ++ cs) = tokens cs := by
  induction a with
  | nil => rfl
  | cons p a ih =>
    rcases tokens_of_isBlank (ha p (by simp)) (a ++ cs) with heq | heq
    · rw [List.cons_append, heq] at hjunk ⊢
      exact ih (fun q hq => ha q (List.mem_cons_of_mem _ hq)) hjunk
    · rw [List.cons_append, heq] at hjunk
      exact absurd (List.mem_singleton_self _) hjunk

/-- So do blanks after it. -/
theorem tokens_append_blanks {b : Text} (hb : ∀ p ∈ b, p.is isBlank) {cs : Text}
    (hjunk : .junk ∉ tokens (cs ++ b)) : tokens (cs ++ b) = tokens cs := by
  have happend : tokens (cs ++ b) = tokens cs ++ tokens b := by
    refine (tokens_append (fun p cs hspace hmark => ?_) cs).resolve_left hjunk
    refine (scanScalar_append_blanks hb p cs).imp_right fun hnone => ?_
    rw [tokens_of_none hspace hmark hnone]
    exact List.mem_singleton_self _
  rw [happend, List.mem_append, not_or] at hjunk
  have hblanks : tokens (b ++ []) = tokens [] := tokens_blanks_append hb (by simpa using hjunk.2)
  rw [List.append_nil, tokens_nil] at hblanks
  rw [happend, hblanks, List.append_nil]

/-! ## Values -/

/-- Junk ends the reading. -/
theorem step_junk {limit : Nat} (r : Reading) : r.step limit .junk = .error .malformed := by
  cases r <;> rfl

/-- Tokens that are read to their end have no junk. -/
theorem junk_not_mem_of_run {limit : Nat} {r r' : Reading} {ts : List Token}
    (h : r.run limit ts = .ok r') : .junk ∉ ts := by
  induction ts generalizing r with
  | nil => simp
  | cons t ts ih =>
    rw [Reading.run, List.foldlM_cons] at h
    cases hstep : r.step limit t with
    | error e =>
      rw [hstep] at h
      exact absurd h (by rintro ⟨⟩)
    | ok r₁ =>
      rw [hstep] at h
      rw [List.mem_cons, not_or]
      refine ⟨?_, ih h⟩
      rintro rfl
      rw [step_junk] at hstep
      exact absurd hstep (by rintro ⟨⟩)

/-- **Blanks.** A text that is read with blanks around it is read without them. -/
theorem parseWithin_of_blanks {limit : Nat} {a cs b : Text} {v : Json} (ha : ∀ p ∈ a, p.is isBlank)
    (hb : ∀ p ∈ b, p.is isBlank) (h : parseWithin limit (a ++ cs ++ b) = .ok v) :
    parseWithin limit cs = .ok v := by
  rw [parseWithin] at h ⊢
  cases hrun : (Reading.value []).run limit (tokens (a ++ cs ++ b)) with
  | error e =>
    rw [hrun] at h
    exact absurd h (by rintro ⟨⟩)
  | ok r =>
    have hjunk := junk_not_mem_of_run hrun
    have hafter := tokens_append_blanks hb hjunk
    rw [hafter] at hjunk
    rwa [hafter, tokens_blanks_append ha hjunk] at h

end Dialectic.Json
