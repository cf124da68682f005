import Dialectic.Proofs.Enumeration
import Dialectic.Proofs.Extensions
import Mathlib.Data.Finset.Powerset

/-!
# Candidates for preferred labellings

Once some labellings are recorded, a candidate is a complete labelling that accepts something and is
not covered: what it accepts is not all accepted by a recorded one. A candidate that no other
candidate outgrows is preferred (`IsCandidate.isPreferred`), recording a candidate covers at least
one more set of arguments (`card_uncovered_concat_lt`), and once no candidate is left the recorded
labellings are the preferred ones, unless nothing can be accepted at all
(`Exhausted.enumerates_isPreferred`).
-/

namespace Dialectic.Framework

variable {f : Framework} {n : Nat} {found : List Labelling} {e : List Nat} {l l' : Labelling}

/-- A complete labelling that accepts something, and not only what a recorded labelling accepts. -/
structure IsCandidate (f : Framework) (found : List Labelling) (l : Labelling) : Prop where
  /-- The labelling is complete. -/
  isComplete : f.IsComplete l
  /-- Something is accepted. -/
  accepted_ne_nil : l.accepted ≠ []
  /-- No recorded labelling accepts as much. -/
  not_covered : ∀ r ∈ found, ¬ l.accepted ⊆ r.accepted

/-- A candidate that accepts more than a set of arguments. -/
def Outgrows (f : Framework) (found : List Labelling) (e : List Nat) (l : Labelling) : Prop :=
  f.IsCandidate found l ∧ e ⊆ l.accepted ∧ ¬ l.accepted ⊆ e

/-- Every candidate accepts more than nothing. -/
theorem outgrows_nil_iff : f.Outgrows found [] l ↔ f.IsCandidate found l := by
  constructor
  · exact fun h => h.1
  · intro h
    refine ⟨h, List.nil_subset _, fun hs => h.accepted_ne_nil ?_⟩
    exact List.subset_nil.1 hs

/-- To accept more than some arguments does not depend on their order. -/
theorem outgrows_congr {e' : List Nat} (h : e.Perm e') :
    f.Outgrows found e l ↔ f.Outgrows found e' l := by
  have hsub : e ⊆ l.accepted ↔ e' ⊆ l.accepted :=
    ⟨List.Subset.trans h.symm.subset, List.Subset.trans h.subset⟩
  have hsub' : l.accepted ⊆ e ↔ l.accepted ⊆ e' :=
    ⟨fun h' => List.Subset.trans h' h.subset, fun h' => List.Subset.trans h' h.symm.subset⟩
  rw [Outgrows, Outgrows, hsub, hsub']

/-- To accept more than a larger set is to accept more than the smaller one, the rest of the larger
one, and something outside it. -/
theorem outgrows_iff_of_subset {e' : List Nat} (hs : e ⊆ e') :
    f.Outgrows found e' l ↔
      f.Outgrows found e l ∧ (∀ i ∈ e', i ∉ e → i ∈ l.accepted) ∧ ¬ l.accepted ⊆ e' := by
  constructor
  · rintro ⟨hc, hsub, hout⟩
    exact ⟨⟨hc, fun i hi => hsub (hs hi), fun h => hout fun i hi => hs (h hi)⟩,
      fun i hi _ => hsub hi, hout⟩
  · rintro ⟨⟨hc, hsub, _⟩, hrest, hout⟩
    refine ⟨hc, fun i hi => ?_, hout⟩
    by_cases hie : i ∈ e
    · exact hsub hie
    · exact hrest i hi hie

/-- At first the candidates are the complete labellings that accept something. -/
theorem isCandidate_nil_iff : f.IsCandidate [] l ↔ f.IsComplete l ∧ ¬ l.accepted ⊆ [] := by
  rw [List.subset_nil]
  constructor
  · exact fun h => ⟨h.isComplete, h.accepted_ne_nil⟩
  · exact fun h => ⟨h.1, h.2, by simp⟩

/-- With one more labelling recorded the candidates are those that it does not cover. -/
theorem isCandidate_concat_iff :
    f.IsCandidate (found ++ [l']) l ↔ f.IsCandidate found l ∧ ¬ l.accepted ⊆ l'.accepted := by
  constructor
  · intro h
    refine ⟨⟨h.isComplete, h.accepted_ne_nil, fun r hr => h.not_covered r ?_⟩, h.not_covered l' ?_⟩
    · exact List.mem_append_left _ hr
    · simp
  · rintro ⟨h, hl'⟩
    refine ⟨h.isComplete, h.accepted_ne_nil, fun r hr => ?_⟩
    rcases List.mem_append.1 hr with hr | hr
    · exact h.not_covered r hr
    · rw [List.mem_singleton.1 hr]
      exact hl'

/-- **Maximal candidates are preferred.** A labelling that accepts more would be a candidate as
well. -/
theorem IsCandidate.isPreferred (h : f.IsCandidate found l)
    (hmax : ∀ l', f.IsCandidate found l' → l.accepted ⊆ l'.accepted → l'.accepted ⊆ l.accepted) :
    f.IsPreferred l := by
  refine ⟨h.isComplete, fun l' hl' hs => hmax l' ⟨hl', fun hnil => ?_, fun r hr hsub => ?_⟩ hs⟩
  · rw [hnil] at hs
    exact h.accepted_ne_nil (List.subset_nil.1 hs)
  · exact h.not_covered r hr fun i hi => hsub (hs hi)

/-- A candidate is not recorded yet. -/
theorem IsCandidate.not_mem (h : f.IsCandidate found l) : l ∉ found := fun hl =>
  h.not_covered l hl (List.Subset.refl _)

/-! ## How much is left -/

/-- A list without duplicates that does not have everything in a list around it is shorter. -/
theorem length_lt_of_subset {xs ys : List Nat} (hnd : xs.Nodup) (hs : xs ⊆ ys) (hne : ¬ ys ⊆ xs) :
    xs.length < ys.length := by
  rw [List.subset_def] at hne
  push Not at hne
  obtain ⟨y, hy, hyx⟩ := hne
  have hnd' : (y :: xs).Nodup := List.nodup_cons.2 ⟨hyx, hnd⟩
  exact (hnd'.subperm (List.cons_subset.2 ⟨hy, hs⟩)).length_le

/-- What a labelling accepts are some of the arguments. -/
theorem IsComplete.accepted_subset_range (h : f.IsComplete l) (hn : f.size = n) :
    l.accepted ⊆ List.range n := by
  intro i hi
  have := h.lt_length_iff.1 (Labelling.lt_length_of_mem_indices hi)
  rw [List.mem_range]
  omega

/-- No more arguments are accepted than there are. -/
theorem IsComplete.length_accepted_le (h : f.IsComplete l) (hn : f.size = n) :
    l.accepted.length ≤ n := by
  simpa using (l.nodup_accepted.subperm (h.accepted_subset_range hn)).length_le

/-- If some argument is not accepted, fewer are accepted than there are. -/
theorem IsComplete.length_accepted_lt (h : f.IsComplete l) (hn : f.size = n)
    (hne : ¬ ∀ i < n, i ∈ l.accepted) : l.accepted.length < n := by
  have hs : ¬ List.range n ⊆ l.accepted := fun hs => hne fun i hi => hs (List.mem_range.2 hi)
  simpa using length_lt_of_subset l.nodup_accepted (h.accepted_subset_range hn) hs

/-- The sets of arguments that no recorded labelling covers. -/
def uncovered (n : Nat) (found : List Labelling) : Finset (Finset Nat) :=
  (Finset.range n).powerset.filter fun a => ∀ r ∈ found, ¬ a ⊆ r.accepted.toFinset

/-- What a candidate accepts is not covered. -/
theorem IsCandidate.mem_uncovered (h : f.IsCandidate found l) (hn : f.size = n) :
    l.accepted.toFinset ∈ uncovered n found := by
  rw [uncovered, Finset.mem_filter, Finset.mem_powerset]
  constructor
  · intro i hi
    have := h.isComplete.accepted_subset_range hn (List.mem_toFinset.1 hi)
    exact Finset.mem_range.2 (List.mem_range.1 this)
  · intro r hr hs
    exact h.not_covered r hr fun i hi => List.mem_toFinset.1 (hs (List.mem_toFinset.2 hi))

/-- At first there are as many sets as there are choices of arguments. -/
theorem card_uncovered_nil_le (n : Nat) : (uncovered n []).card ≤ 2 ^ n := by
  refine (Finset.card_filter_le _ _).trans (Nat.le_of_eq ?_)
  rw [Finset.card_powerset, Finset.card_range]

/-- Recording a candidate covers at least one more set: what the candidate accepts. -/
theorem card_uncovered_concat_lt (h : f.IsCandidate found l) (hn : f.size = n) :
    (uncovered n (found ++ [l])).card < (uncovered n found).card := by
  apply Finset.card_lt_card
  rw [Finset.ssubset_iff_of_subset]
  · refine ⟨l.accepted.toFinset, h.mem_uncovered hn, fun hmem => ?_⟩
    exact (Finset.mem_filter.1 hmem).2 l (by simp) (Finset.Subset.refl _)
  · intro a ha
    obtain ⟨hr, hc⟩ := Finset.mem_filter.1 ha
    exact Finset.mem_filter.2 ⟨hr, fun r hr => hc r (List.mem_append_left _ hr)⟩

/-! ## When no candidate is left -/

/-- If nothing can be accepted, nothing can be rejected either. -/
theorem IsComplete.eq_replicate (h : f.IsComplete l) (hn : f.size = n) (ha : l.accepted = []) :
    l = List.replicate n .undecided := by
  refine List.eq_replicate_iff.2 ⟨h.length_eq hn, fun s hs => ?_⟩
  obtain ⟨i, hi⟩ := List.mem_iff_getElem?.1 hs
  have hil := (List.getElem?_eq_some_iff.1 hi).1
  cases s with
  | accepted =>
    have := Labelling.mem_accepted.2 hi
    simp [ha] at this
  | rejected =>
    obtain ⟨j, hj, -⟩ := (h.rejected_iff hil).1 hi
    simp [ha] at hj
  | undecided => rfl

/-- Where no complete labelling accepts anything, the one with nothing decided is the only one. -/
theorem WellFormed.isComplete_iff_eq_replicate (hf : f.WellFormed) (hn : f.size = n)
    (hnone : ∀ l, f.IsComplete l → l.accepted = []) :
    f.IsComplete l ↔ l = List.replicate n .undecided := by
  constructor
  · intro h
    exact h.eq_replicate hn (hnone l h)
  · rintro rfl
    obtain ⟨l, hl, -⟩ := hf.exists_isGrounded
    rwa [hl.eq_replicate hn (hnone l hl)] at hl

/-- The recorded labellings are preferred and accept something, and there is nothing else to
record. -/
structure Exhausted (f : Framework) (found : List Labelling) : Prop where
  /-- What is recorded is preferred and accepts something. -/
  isPreferred : ∀ l ∈ found, f.IsPreferred l ∧ l.accepted ≠ []
  /-- Nothing is recorded twice. -/
  nodup : found.Nodup
  /-- No candidate is left. -/
  not_isCandidate : ∀ l, ¬ f.IsCandidate found l

/-- Once no candidate is left, nothing is recorded exactly if no complete labelling accepts
anything. -/
theorem Exhausted.eq_nil_iff (h : f.Exhausted found) :
    found = [] ↔ ∀ l, f.IsComplete l → l.accepted = [] := by
  constructor
  · rintro rfl l hl
    by_contra ha
    exact h.not_isCandidate l ⟨hl, ha, by simp⟩
  · intro hnil
    by_contra hne
    obtain ⟨r, rest, rfl⟩ := List.exists_cons_of_ne_nil hne
    obtain ⟨hr, ha⟩ := h.isPreferred r (by simp)
    exact ha (hnil r hr.1)

/-- **When no candidate is left.** The recorded labellings, or the one with nothing decided if none
is recorded, are the preferred labellings. -/
theorem Exhausted.enumerates_isPreferred (hf : f.WellFormed) (hn : f.size = n)
    (h : f.Exhausted found) :
    Enumerates f.IsPreferred (if found = [] then [List.replicate n .undecided] else found) := by
  by_cases hfound : found = []
  · have hnil := h.eq_nil_iff.1 hfound
    rw [if_pos hfound]
    refine ⟨List.nodup_singleton _, fun l => ?_⟩
    rw [List.mem_singleton, ← hf.isComplete_iff_eq_replicate hn hnil]
    constructor
    · intro hl
      refine ⟨hl, fun l' hl' _ => ?_⟩
      rw [hnil l' hl']
      exact List.nil_subset _
    · exact fun hl => hl.1
  · rw [if_neg hfound]
    refine ⟨h.nodup, fun l => ⟨fun hl => (h.isPreferred l hl).1, fun hl => ?_⟩⟩
    -- Some recorded labelling accepts all that a preferred one does, so the two are the same.
    have hcover : ∃ r ∈ found, l.accepted ⊆ r.accepted := by
      by_cases ha : l.accepted = []
      · obtain ⟨r, rest, hr⟩ := List.exists_cons_of_ne_nil hfound
        exact ⟨r, by simp [hr], by rw [ha]; exact List.nil_subset _⟩
      · by_contra hc
        push Not at hc
        exact h.not_isCandidate l ⟨hl.1, ha, hc⟩
    obtain ⟨r, hr, hs⟩ := hcover
    have hrc := (h.isPreferred r hr).1.1
    rw [hl.1.eq_of_accepted hrc hs (hl.2 r hrc hs)]
    exact hr

end Dialectic.Framework
