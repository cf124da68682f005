import Dialectic.Proofs.Blanks
import Dialectic.Proofs.Meanings

/-!
# An object after an open text

An object is written after some text that may have been left open anywhere. If the text is cut off
inside a string, the string ends at the first quote of the object, and what is left of the object
cannot be read (`tokens_append_obj`); else the object is one more value inside the text or after it,
and the whole is never one value (`ne_complete_of_run`). So the object is read exactly if nothing
but blanks stands before it (`parseWithin_append_obj_iff`).
-/

namespace Dialectic.Json

open Text (ofChars)

variable {limit : Nat} {r r' : Reading} {t : Token} {ts : List Token} {v : Json}
  {fields : List (Text × Json)} {cs l : Text}

/-! ## What the machine does not do -/

/-- Tokens may be read in two parts. -/
theorem run_append (limit : Nat) (r : Reading) (ts us : List Token) :
    r.run limit (ts ++ us) = r.run limit ts >>= fun r' => r'.run limit us :=
  List.foldlM_append ..

/-- Whether a list or an object was begun, or a value is complete. -/
def Reading.HasBegun (r : Reading) : Prop := r ≠ .value []

theorem hasBegun_close (v : Json) (stack : List Frame) : (Reading.close v stack).HasBegun := by
  match stack with
  | [] => simp [Reading.HasBegun, Reading.close]
  | .item before :: stack => simp [Reading.HasBegun, Reading.close]
  | .field before key :: stack => simp [Reading.HasBegun, Reading.close]

theorem hasBegun_start {stack : List Frame} (h : Reading.start limit stack t = .ok r') :
    r'.HasBegun := by
  unfold Reading.start at h
  split at h
  · exact Except.ok.inj h ▸ hasBegun_close _ _
  · simp at h
  · split at h
    · exact Except.ok.inj h ▸ by simp [Reading.HasBegun]
    · simp at h
  · split at h
    · exact Except.ok.inj h ▸ by simp [Reading.HasBegun]
    · simp at h
  · simp at h

/-- After a token the machine does not wait for the first one. -/
theorem hasBegun_step (h : r.step limit t = .ok r') : r'.HasBegun := by
  unfold Reading.step at h
  split at h <;> first
    | exact hasBegun_start h
    | exact Except.ok.inj h ▸ hasBegun_close _ _
    | exact Except.ok.inj h ▸ by simp [Reading.HasBegun]
    | simp at h

/-- What has begun stays so. -/
theorem hasBegun_run (hr : r.HasBegun) (h : r.run limit ts = .ok r') : r'.HasBegun := by
  induction ts generalizing r with
  | nil => exact Except.ok.inj h ▸ hr
  | cons t ts ih =>
    obtain ⟨r₁, hstep, hrun⟩ := bind_eq_ok_iff.1 h
    exact ih (hasBegun_step hstep) hrun

/-- What is read within a limit is read alike within a greater one. -/
theorem step_of_le {limit' : Nat} (hle : limit ≤ limit') (h : r.step limit t = .ok r') :
    r.step limit' t = .ok r' := by
  have hstart : ∀ {stack : List Frame},
      Reading.start limit stack t = .ok r' → Reading.start limit' stack t = .ok r' := by
    intro stack h
    unfold Reading.start at h ⊢
    split at h
    · exact h
    · simp at h
    · split at h
      · rw [← h]
        exact if_pos (by omega)
      · simp at h
    · split at h
      · rw [← h]
        exact if_pos (by omega)
      · simp at h
    · simp at h
  unfold Reading.step at h ⊢
  split at h <;> first | exact hstart h | exact h

/-- A higher limit takes nothing away from what can be read. -/
theorem run_of_le {limit' : Nat} (hle : limit ≤ limit') (h : r.run limit ts = .ok r') :
    r.run limit' ts = .ok r' := by
  induction ts generalizing r with
  | nil => exact h
  | cons t ts ih =>
    obtain ⟨r₁, hstep, hrun⟩ := bind_eq_ok_iff.1 h
    rw [run_cons (step_of_le hle hstep)]
    exact ih hrun

/-- An object begins only where a value is due. -/
theorem cases_of_step_openObj (h : r.step limit .openObj = .ok r') :
    (∃ stack, r = .value stack) ∨ ∃ stack, r = .firstItem stack := by
  cases r with
  | value stack => exact .inl ⟨stack, rfl⟩
  | firstItem stack => exact .inr ⟨stack, rfl⟩
  | _ => simp [Reading.step] at h

/-- An object after something else is not the whole of a value. -/
theorem ne_complete_of_run (hr : r.HasBegun) (hregular : (obj fields).isRegular)
    (h : r.run limit (obj fields).tokensOf = .ok r') (v : Json) : r' ≠ .complete v := by
  have hinside : ∀ {stack : List Frame},
      stack ≠ [] → (Reading.value stack).run limit (obj fields).tokensOf = .ok r' →
      r' ≠ .complete v := by
    intro stack hne h
    -- Without a limit the object would be put where it belongs.
    have hlarge := run_of_le (Nat.le_max_left limit (stack.length + (obj fields).depth)) h
    have hbuilt := run_tokensOf hregular
      (Nat.le_max_right limit (stack.length + (obj fields).depth)) stack [] rfl
    rw [List.append_nil, hlarge] at hbuilt
    obtain rfl := Except.ok.inj hbuilt
    match stack with
    | .item before :: stack => simp [Reading.close]
    | .field before key :: stack => simp [Reading.close]
  obtain ⟨r₁, hstep, -⟩ := bind_eq_ok_iff.1 h
  obtain ⟨stack, rfl⟩ | ⟨stack, rfl⟩ := cases_of_step_openObj hstep
  · exact hinside (fun hnil => hr (by rw [hnil])) h
  · rw [tokensOf] at h hinside
    exact @hinside (.item [] :: stack) (List.cons_ne_nil _ _) h

/-! ## What is cut -/

/-- A text has no tokens exactly if it is blank. -/
theorem tokens_eq_nil_iff : tokens cs = [] ↔ ∀ p ∈ cs, isSpace p := by
  induction cs using tokens_induction with
  | nil => simp [tokens_nil]
  | space p cs hspace ih =>
    rw [tokens_of_isSpace hspace, ih, List.forall_mem_cons, and_iff_right hspace]
  | mark p t cs hmark ih => simp [tokens_of_mark? hmark, (not_inner_not_space_of_mark? hmark).2]
  | scalar p cs t after hspace hmark hscan ih => simp [tokens_of_scanScalar hscan, hspace]
  | junk p cs hspace hmark hscan => simp [tokens_of_none hspace hmark hscan, hspace]

/-- If what follows the first quote of an object cannot be read by itself, the tokens of the object
stand after those of the text before it, unless something cannot be read. -/
theorem tokens_append_obj (hl : .junk ∈ tokens l) (cs : Text) :
    .junk ∈ tokens (cs ++ .char '\x7b' :: .char '"' :: l) ∨
      tokens (cs ++ .char '\x7b' :: .char '"' :: l) =
        tokens cs ++ tokens (.char '\x7b' :: .char '"' :: l) := by
  refine tokens_append (fun p cs hspace hmark => ?_) cs
  by_cases hquote : p = .char '"'
  · subst hquote
    cases hscan : scanString [] (cs ++ .char '\x7b' :: .char '"' :: l) with
    | none =>
      have hnone : scanScalar (.char '"' :: (cs ++ .char '\x7b' :: .char '"' :: l)) = none := by
        rw [scanScalar, hscan, Option.map_none]
      rw [tokens_of_none hspace hmark hnone]
      exact .inr (List.mem_singleton_self _)
    | some r =>
      obtain ⟨s, after⟩ := r
      have hsome : scanScalar (.char '"' :: (cs ++ .char '\x7b' :: .char '"' :: l)) =
          some (.scalar (.str s), after) := by
        rw [scanScalar, hscan, Option.map_some]
      obtain ⟨after', hscan', rfl⟩ | rfl := scanString_append_open hscan
      · refine .inl ?_
        rw [hsome, scanScalar, hscan']
        rfl
      · rw [tokens_of_scanScalar hsome]
        exact .inr (List.mem_cons_of_mem _ hl)
  · have hends : Ends (.char '\x7b' :: .char '"' :: l) := ends_cons (by decide)
    exact .inl (scanScalar_append hends hquote cs)

/-! ## What is read -/

/-- **An object after an open text.** If what follows its first quote cannot be read by itself, an
object after some text is read exactly if the text has nothing but blanks. -/
theorem parseWithin_append_obj_iff (hfaithful : IsFaithful (.obj fields))
    (hdepth : (obj fields).depth ≤ limit)
    (htext : ofChars (write (.obj fields)) = .char '\x7b' :: .char '"' :: l)
    (hl : .junk ∈ tokens l) :
    parseWithin limit (cs ++ ofChars (write (.obj fields))) = .ok v ↔
      (∀ p ∈ cs, isSpace p) ∧ v = .obj fields := by
  have htokens : tokens (ofChars (write (.obj fields))) = (obj fields).tokensOf := by
    simpa [tokens_nil] using tokens_write hfaithful [] (by simp [Ends])
  have hspaces : (∀ p ∈ cs, isSpace p) →
      parseWithin limit (cs ++ ofChars (write (.obj fields))) = .ok (.obj fields) := by
    intro hcs
    have happend : tokens (cs ++ ofChars (write (.obj fields))) =
        tokens (ofChars (write (.obj fields))) := by
      induction cs with
      | nil => rfl
      | cons p cs ih =>
        rw [List.forall_mem_cons] at hcs
        rw [List.cons_append, tokens_of_isSpace hcs.1, ih hcs.2]
    rw [parseWithin, happend, ← parseWithin]
    exact parseWithin_write_of_isFaithful hfaithful hdepth
  refine ⟨fun h => ?_, fun h => h.2 ▸ hspaces h.1⟩
  suffices hcs : ∀ p ∈ cs, isSpace p by
    rw [hspaces hcs] at h
    exact ⟨hcs, (Except.ok.inj h).symm⟩
  obtain ⟨r, hrun, hr⟩ := bind_eq_ok_iff.1 h
  have hcut : tokens (cs ++ ofChars (write (.obj fields))) =
      tokens cs ++ (obj fields).tokensOf := by
    rw [← htokens, htext]
    refine (tokens_append_obj hl cs).resolve_left ?_
    rw [← htext]
    exact junk_not_mem_of_run hrun
  rw [hcut, run_append] at hrun
  obtain ⟨r₁, hbefore, hobj⟩ := bind_eq_ok_iff.1 hrun
  rw [← tokens_eq_nil_iff]
  -- After a token of the text the object cannot complete the value.
  by_contra hne
  have hbegun : r₁.HasBegun := by
    obtain ⟨t, ts, heq⟩ := List.exists_cons_of_ne_nil hne
    rw [heq] at hbefore
    obtain ⟨r₂, hstep, hrest⟩ := bind_eq_ok_iff.1 hbefore
    exact hasBegun_run (hasBegun_step hstep) hrest
  have hcomplete := ne_complete_of_run hbegun hfaithful.regular hobj
  split at hr
  · exact hcomplete _ rfl
  · simp [throw, throwThe, MonadExceptOf.throw] at hr

end Dialectic.Json
