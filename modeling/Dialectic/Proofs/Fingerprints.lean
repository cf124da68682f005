import Dialectic.Framework.Build
import Dialectic.Proofs.Numerals
import Dialectic.Proofs.Outcome
import Dialectic.Text.Line

/-!
# What a fingerprint tells

A fingerprint is a hash of a text in which the size of a framework and the ends of its attacks stand
one after the other, with signs between them. No number has these signs, so the text says which
numbers it was made of, whatever their signs and lengths (`Framework.identity_inj`). Main statement:
two frameworks have one fingerprint exactly if they are the same, as far as the hash tells their
texts apart; a framework has none exactly if a number in it has too many digits to be written
(`Framework.fingerprint_exact`).
-/

namespace Dialectic

/-! ## Lists between separators -/

namespace Text

variable {α : Type} {sep : α} {xs ys rest rest' : List α} {ls ks : List (List α)}

/-- Only no parts at all make the empty text. -/
theorem eq_nil_of_intercalate_eq_nil (h : ∀ l ∈ ls, l ≠ [])
    (hnil : List.intercalate [sep] ls = []) : ls = [] := by
  cases ls with
  | nil => rfl
  | cons l ls =>
    exfalso
    apply h l List.mem_cons_self
    cases ls with
    | nil => rwa [List.intercalate_singleton] at hnil
    | cons l' ls =>
      rw [List.intercalate_cons_cons, List.append_assoc] at hnil
      exact (List.append_eq_nil_iff.1 hnil).1

variable [DecidableEq α]

/-- The first separator divides a list in one way. -/
theorem append_separator_inj (hx : sep ∉ xs) (hy : sep ∉ ys)
    (h : xs ++ sep :: rest = ys ++ sep :: rest') : xs = ys ∧ rest = rest' := by
  have hpieces := congrArg (pieces sep) h
  rw [pieces_append_cons hx, pieces_append_cons hy, List.cons.injEq] at hpieces
  obtain ⟨rfl, -⟩ := hpieces
  refine ⟨rfl, ?_⟩
  simpa using h

/-- Lists without the separator are the pieces of what they make with separators between them. -/
theorem pieces_intercalate (hne : ls ≠ []) (h : ∀ l ∈ ls, sep ∉ l) :
    pieces sep (List.intercalate [sep] ls) = ls := by
  induction ls with
  | nil => exact absurd rfl hne
  | cons l ls ih =>
    rw [List.forall_mem_cons] at h
    cases ls with
    | nil => rw [List.intercalate_singleton, pieces_of_not_mem h.1]
    | cons l' ls =>
      rw [List.intercalate_cons_cons, List.append_assoc, List.singleton_append,
        pieces_append_cons h.1, ih (List.cons_ne_nil _ _) h.2]

/-- Lists that are not empty and do not have the separator can be told from what they make with
separators between them. An empty one could not: no list at all makes the same. -/
theorem intercalate_inj (hl : ∀ l ∈ ls, l ≠ [] ∧ sep ∉ l) (hk : ∀ k ∈ ks, k ≠ [] ∧ sep ∉ k)
    (h : List.intercalate [sep] ls = List.intercalate [sep] ks) : ls = ks := by
  by_cases hls : ls = []
  · subst hls
    exact (eq_nil_of_intercalate_eq_nil (fun k hmem => (hk k hmem).1) h.symm).symm
  · by_cases hks : ks = []
    · subst hks
      exact eq_nil_of_intercalate_eq_nil (fun l hmem => (hl l hmem).1) h
    · rw [← pieces_intercalate hls fun l hmem => (hl l hmem).2, h,
        pieces_intercalate hks fun k hmem => (hk k hmem).2]

end Text

/-! ## Numerals -/

namespace Integer

/-- The characters of an integer. -/
def numeral (n : Int) : List Char := (toString n).toList

theorem numeral_eq_write (n : Int) : numeral n = Json.write (.int n) := by
  rw [numeral, Json.write]

/-- Different integers have different numerals. -/
theorem numeral_injective : Function.Injective numeral := by
  intro m n h
  rw [numeral_eq_write, numeral_eq_write] at h
  exact Json.write_int_inj h

/-- A sign that is neither a digit nor a minus sign is in no numeral. -/
theorem not_mem_numeral {c : Char} (hdigit : c.isDigit = false) (hminus : c ≠ '-') (n : Int) :
    c ∉ numeral n := by
  intro hc
  rw [numeral_eq_write] at hc
  rcases Json.isDigit_or_of_mem_write_int hc with h | h
  · exact Bool.false_ne_true (hdigit ▸ h)
  · exact hminus h

/-- An integer is written as its numeral, if it has not too many digits. -/
theorem write_eq (n : Int) :
    write n = if isWritable n then .ok (numeral n) else .error .writing := rfl

end Integer

/-! ## The text of a framework -/

open Integer (numeral)

/-- An attack as the text has it. -/
def Attack.identity (a : Attack) : List Char := numeral a.origin ++ '>' :: numeral a.target

/-- The text says between which arguments an attack is. -/
theorem Attack.identity_injective : Function.Injective Attack.identity := by
  rintro ⟨o, t⟩ ⟨o', t'⟩ h
  have hnot := Integer.not_mem_numeral (c := '>') rfl (by decide)
  obtain ⟨horigin, htarget⟩ := Text.append_separator_inj (hnot o) (hnot o') h
  rw [mk.injEq]
  exact ⟨Integer.numeral_injective horigin, Integer.numeral_injective htarget⟩

/-- The text of an attack is not empty and has no comma. -/
theorem Attack.identity_ne_nil_and_not_mem (a : Attack) : a.identity ≠ [] ∧ ',' ∉ a.identity := by
  refine ⟨by simp [Attack.identity], ?_⟩
  have hnot := Integer.not_mem_numeral (c := ',') rfl (by decide)
  simp [Attack.identity, hnot]

namespace Framework

variable {f g : Framework}

/-- The numbers of a framework: its size and the ends of its attacks. -/
def numbers (f : Framework) : List Int := f.size :: f.attacks.flatMap fun a => [a.origin, a.target]

/-- Whether no number of a framework has too many digits to be written. -/
def isWritable (f : Framework) : Bool := f.numbers.all Integer.isWritable

/-- The text that a framework is known by: the size, a colon, and the attacks with commas between
them. -/
def identity (f : Framework) : List Char :=
  numeral f.size ++ ':' :: List.intercalate [','] (f.attacks.map Attack.identity)

/-- **Decoding.** The text of a framework says what its size and its attacks are. -/
theorem identity_inj (h : f.identity = g.identity) : f.size = g.size ∧ f.attacks = g.attacks := by
  have hnot := Integer.not_mem_numeral (c := ':') rfl (by decide)
  obtain ⟨hsize, hattacks⟩ := Text.append_separator_inj (hnot f.size) (hnot g.size) h
  refine ⟨Integer.numeral_injective hsize, ?_⟩
  have hpieces : ∀ attacks : List Attack,
      ∀ piece ∈ attacks.map Attack.identity, piece ≠ [] ∧ ',' ∉ piece := by
    intro attacks
    rw [List.forall_mem_map]
    intro a _
    exact a.identity_ne_nil_and_not_mem
  have hmap := Text.intercalate_inj (hpieces f.attacks) (hpieces g.attacks) hattacks
  exact (List.map_inj_right fun a b hab => Attack.identity_injective hab).1 hmap

/-- Two frameworks have the same text exactly if they are the same. -/
theorem identity_eq_iff : f.identity = g.identity ↔ f.same g := by
  rw [same_iff]
  constructor
  · exact identity_inj
  · rintro ⟨hsize, hattacks⟩
    rw [identity, identity, hsize, hattacks]

/-- An attack is written if both its numbers can be. -/
theorem attackText_eq_ite (a : Attack) : attackText a =
    if Integer.isWritable a.origin && Integer.isWritable a.target then .ok a.identity
    else .error .writing := by
  rw [attackText, Integer.write_eq, Integer.write_eq]
  cases Integer.isWritable a.origin <;> cases Integer.isWritable a.target <;> rfl

/-- Attacks are written if all their numbers can be. -/
theorem mapM_attackText (attacks : List Attack) : attacks.mapM attackText =
    if (attacks.flatMap fun a => [a.origin, a.target]).all Integer.isWritable then
      .ok (attacks.map Attack.identity)
    else .error .writing := by
  induction attacks with
  | nil => rfl
  | cons a rest ih =>
    rw [List.mapM_cons, attackText_eq_ite, ih, List.flatMap_cons, List.all_append]
    simp only [List.all_cons, List.all_nil, Bool.and_true]
    cases Integer.isWritable a.origin && Integer.isWritable a.target <;>
      cases (rest.flatMap fun a => [a.origin, a.target]).all Integer.isWritable <;> rfl

/-- The text is made unless a number has too many digits. -/
theorem identityText_eq (f : Framework) :
    f.identityText = if f.isWritable then .ok f.identity else .error .writing := by
  rw [identityText, Integer.write_eq, mapM_attackText, isWritable, numbers, List.all_cons]
  cases Integer.isWritable f.size <;>
    cases (f.attacks.flatMap fun a => [a.origin, a.target]).all Integer.isWritable <;> rfl

/-! ## Fingerprints -/

/-- The fingerprint of a framework, if its text can be made. -/
theorem fingerprint_eq (f : Framework) :
    f.fingerprint =
      if f.isWritable then .ok ("sha256:" ++ Digest.short f.identity) else .error .writing := by
  rw [fingerprint, identityText_eq]
  cases f.isWritable <;> rfl

/-- **Fingerprints.** Frameworks of any numbers, with or without names, have fingerprints, unless a
number has too many digits to be written. Two fingerprints are equal exactly if the frameworks have
the same size and the same attacks in the same order, provided that the hash does not take their two
texts for the same. -/
theorem fingerprint_exact
    (htold : Digest.short f.identity = Digest.short g.identity → f.identity = g.identity) :
    ∃ p q, f.fingerprint = (if f.isWritable then .ok p else .error .writing) ∧
      g.fingerprint = (if g.isWritable then .ok q else .error .writing) ∧ (p = q ↔ f.same g) := by
  refine ⟨_, _, fingerprint_eq f, fingerprint_eq g, ?_⟩
  rw [← identity_eq_iff, String.append_right_inj]
  constructor
  · exact htold
  · intro h
    rw [h]

/-- The same digits with other signs between them, in frameworks of minus one arguments. -/
theorem fingerprint_exact_clashing_digits :
    ∃ p q, Framework.fingerprint ⟨-1, [⟨12, -3⟩], none⟩ = .ok p ∧
      Framework.fingerprint ⟨-1, [⟨1, 2⟩, ⟨-3, 0⟩], some ["a"]⟩ = .ok q ∧
      (p = q ↔ Framework.same ⟨-1, [⟨12, -3⟩], none⟩ ⟨-1, [⟨1, 2⟩, ⟨-3, 0⟩], some ["a"]⟩) := by
  have hf : Framework.identity ⟨-1, [⟨12, -3⟩], none⟩ = "-1:12>-3".toList := by decide +kernel
  have hg : Framework.identity ⟨-1, [⟨1, 2⟩, ⟨-3, 0⟩], some ["a"]⟩ = "-1:1>2,-3>0".toList := by
    decide +kernel
  have hne : Digest.short "-1:12>-3".toList ≠ Digest.short "-1:1>2,-3>0".toList := by decide +kernel
  apply fingerprint_exact
  rw [hf, hg]
  intro h
  exact absurd h hne

/-- A framework whose size cannot be written has no fingerprint. -/
theorem fingerprint_eq_error (h : ¬ Integer.isWritable f.size) :
    f.fingerprint = .error .writing := by
  rw [fingerprint_eq, if_neg]
  intro hf
  rw [isWritable, numbers, List.all_cons, Bool.and_eq_true] at hf
  exact h hf.1

/-- A framework in which the argument with four thousand and three hundred nines is attacked is the
same as itself, but its size has one digit more, so that it has no fingerprint. -/
theorem same_without_fingerprint :
    same (ofAttacks [⟨0, (10 ^ Integer.digitLimit - 1 : Nat)⟩])
      (ofAttacks [⟨0, (10 ^ Integer.digitLimit - 1 : Nat)⟩]) ∧
      fingerprint (ofAttacks [⟨0, (10 ^ Integer.digitLimit - 1 : Nat)⟩]) = .error .writing := by
  refine ⟨same_iff.2 ⟨rfl, rfl⟩, fingerprint_eq_error ?_⟩
  -- The number itself is never computed: all that counts is that the next one is the power.
  generalize hn : 10 ^ Integer.digitLimit - 1 = n
  have hsucc : n + 1 = 10 ^ Integer.digitLimit := by
    rw [← hn, Nat.sub_add_cancel (Nat.one_le_pow _ _ (by decide))]
  have hsize : (ofAttacks [⟨0, n⟩]).size = (n + 1 : Nat) := by
    simp only [ofAttacks, highest]
    omega
  rw [hsize, Integer.isWritable_iff, Int.natAbs_natCast, hsucc]
  exact Nat.lt_irrefl _

end Framework

end Dialectic
