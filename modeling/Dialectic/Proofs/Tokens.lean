import Dialectic.Proofs.Scanning
import Dialectic.Proofs.Spelling

/-!
# Cutting a text into tokens

A text is cut into tokens one after the other: a blank is passed over, a mark and a value without
parts is a token, and what is none of them ends the cutting (`tokens_induction`).
-/

namespace Dialectic.Json

variable {rest : Text} {p : CodePoint} {t : Token}

/-! ## One token after the other -/

/-- The tokens before stay as they are. -/
theorem tokensFrom_eq (done : List Token) (cs : Text) :
    tokensFrom done cs = done.reverse ++ tokens cs := by
  induction hn : cs.length using Nat.strongRecOn generalizing done cs with
  | ind n ih =>
    -- Both sides take the same first token; what is left is shorter.
    subst hn
    have hstep : ∀ (t : Token) (after : Text), after.length < cs.length → ∀ done,
        tokensFrom (t :: done) after = done.reverse ++ t :: tokens after := by
      intro t after hlength done
      rw [ih after.length hlength (t :: done) after rfl]
      simp
    cases cs with
    | nil => simp [tokens, tokensFrom]
    | cons c cs =>
      rw [tokens, tokensFrom, tokensFrom]
      split
      · rw [ih cs.length (by simp) done cs rfl]
        rfl
      · split
        · rw [hstep _ _ (by simp), hstep _ _ (by simp)]
          rfl
        · split
          · rename_i t after heq
            have hlength := length_of_scanScalar heq
            rw [hstep _ _ hlength, hstep _ _ hlength]
            rfl
          · simp

theorem tokens_nil : tokens [] = [] := by
  simp [tokens, tokensFrom]

/-- A space is no token. -/
theorem tokens_of_isSpace (h : isSpace p) : tokens (p :: rest) = tokens rest := by
  rw [tokens, tokensFrom, if_pos h, tokens]

theorem isInner_of_isSpace (h : isSpace p) : isInner p = false := by
  cases p with
  | surrogate u => rfl
  | char c =>
    simp only [isSpace, Bool.or_eq_true, beq_iff_eq] at h
    rcases h with ((rfl | rfl) | rfl) | rfl <;> decide

theorem not_inner_not_space_of_mark? (h : mark? p = some t) :
    isInner p = false ∧ isSpace p = false := by
  unfold mark? at h
  split at h <;> first | exact ⟨by decide, by decide⟩ | exact absurd h (by simp)

/-- A mark is a token of its own. -/
theorem tokens_of_mark? (h : mark? p = some t) : tokens (p :: rest) = t :: tokens rest := by
  rw [tokens, tokensFrom, if_neg (by simp [(not_inner_not_space_of_mark? h).2]), h]
  exact tokensFrom_eq [t] rest

/-- A scalar is one token, and the rest goes on after it. -/
theorem tokens_of_scanScalar {cs after : Text} (h : scanScalar cs = some (t, after)) :
    tokens cs = t :: tokens after := by
  cases cs with
  | nil => simp [scanScalar, scanWord, words, after?, scanNumber, takeWhole, takeDigits] at h
  | cons p cs =>
    -- Neither a blank nor a mark begins a value.
    have hquote : isInner p = false → p = .char '"' := by
      intro hp
      by_contra hne
      rw [scanScalar_eq_none hp hne] at h
      simp at h
    have hspace : isSpace p = false := by
      cases hp : isSpace p with
      | false => rfl
      | true =>
        obtain rfl := hquote (isInner_of_isSpace hp)
        exact absurd hp (by decide)
    have hmark : mark? p = none := by
      cases hp : mark? p with
      | none => rfl
      | some t =>
        obtain rfl := hquote (not_inner_not_space_of_mark? hp).1
        simp [mark?] at hp
    rw [tokens, tokensFrom, if_neg (by simp [hspace]), hmark]
    simp only
    split
    · rename_i t' after' heq
      rw [h, Option.some.injEq, Prod.mk.injEq] at heq
      rw [heq.1, heq.2]
      exact tokensFrom_eq [t'] after'
    · rename_i heq
      simp [h] at heq

/-- What is none of these is junk, and nothing is read after it. -/
theorem tokens_of_none {p : CodePoint} (hspace : isSpace p = false) (hmark : mark? p = none)
    (hscan : scanScalar (p :: rest) = none) : tokens (p :: rest) = [.junk] := by
  rw [tokens, tokensFrom, if_neg (by simp [hspace]), hmark]
  simp only
  split
  · rename_i heq
    simp [hscan] at heq
  · rfl

/-- A text is cut into tokens from its beginning to its end. -/
@[elab_as_elim]
theorem tokens_induction {P : Text → Prop} (nil : P [])
    (space : ∀ p rest, isSpace p → P rest → P (p :: rest))
    (mark : ∀ p t rest, mark? p = some t → P rest → P (p :: rest))
    (scalar : ∀ p rest t after, isSpace p = false → mark? p = none →
      scanScalar (p :: rest) = some (t, after) → P after → P (p :: rest))
    (junk : ∀ p rest, isSpace p = false → mark? p = none → scanScalar (p :: rest) = none →
      P (p :: rest))
    (cs : Text) : P cs := by
  induction hn : cs.length using Nat.strongRecOn generalizing cs with
  | ind n ih =>
    subst hn
    cases cs with
    | nil => exact nil
    | cons p rest =>
      cases hspace : isSpace p with
      | true => exact space p rest hspace (ih rest.length (by simp) rest rfl)
      | false =>
        cases hmark : mark? p with
        | some t => exact mark p t rest hmark (ih rest.length (by simp) rest rfl)
        | none =>
          cases hscan : scanScalar (p :: rest) with
          | none => exact junk p rest hspace hmark hscan
          | some r =>
            exact scalar p rest r.1 r.2 hspace hmark hscan
              (ih r.2.length (length_of_scanScalar hscan) r.2 rfl)

/-! ## Texts after each other -/

/-- If no token reaches from one text into another, unless something is cut that cannot be read, the
tokens of both are those of the one and then those of the other. -/
theorem tokens_append {b : Text}
    (h : ∀ p cs, isSpace p = false → mark? p = none → scanScalar (p :: (cs ++ b)) =
      (scanScalar (p :: cs)).map (fun r => (r.1, r.2 ++ b)) ∨ .junk ∈ tokens (p :: (cs ++ b)))
    (cs : Text) : .junk ∈ tokens (cs ++ b) ∨ tokens (cs ++ b) = tokens cs ++ tokens b := by
  induction cs using tokens_induction with
  | nil => exact .inr (by rw [tokens_nil, List.nil_append, List.nil_append])
  | space p cs hspace ih =>
    rwa [List.cons_append, tokens_of_isSpace hspace, tokens_of_isSpace hspace]
  | mark p t cs hmark ih =>
    rw [List.cons_append, tokens_of_mark? hmark, tokens_of_mark? hmark, List.cons_append]
    exact ih.imp (List.mem_cons_of_mem _) (congrArg _)
  | scalar p cs t after hspace hmark hscan ih =>
    rcases h p cs hspace hmark with hboth | hjunk
    · rw [hscan] at hboth
      rw [List.cons_append, tokens_of_scanScalar hboth, tokens_of_scanScalar hscan,
        List.cons_append]
      exact ih.imp (List.mem_cons_of_mem _) (congrArg _)
    · exact .inl hjunk
  | junk p cs hspace hmark hscan =>
    rcases h p cs hspace hmark with hboth | hjunk
    · rw [hscan] at hboth
      rw [List.cons_append, tokens_of_none hspace hmark hboth]
      exact .inl (List.mem_singleton_self _)
    · exact .inl hjunk

end Dialectic.Json
