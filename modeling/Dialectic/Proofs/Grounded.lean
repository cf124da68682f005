import Dialectic.Proofs.Labellings
import Mathlib.Order.WellFoundedSet

/-!
# The grounded labelling

A well-formed framework has exactly one complete labelling that accepts only what all of them accept
(`IsGrounded.unique`). Main statement: among the complete labellings that are computed there is
exactly one such, and the search for preferred labellings records nothing exactly if the labelling
with nothing decided is the only complete one (`complete_grounded`).

Where no argument attacks itself along a path of attacks, every complete labelling decides all
arguments (`IsAcyclic.undecided_not_mem`), and the grounded labelling is the only one: the
labellings computed under the three semantics are the same (`labellings_eq_singleton`).
-/

namespace Dialectic

/-! ## One grounded labelling -/

/-- Where nothing is decided, nothing is accepted. -/
theorem Labelling.accepted_replicate (n : Nat) : accepted (List.replicate n .undecided) = [] := by
  rw [List.eq_nil_iff_forall_not_mem]
  intro i hi
  have hu := List.mem_of_getElem? (mem_accepted.1 hi)
  rw [List.mem_replicate] at hu
  exact absurd hu.2 (by decide)

namespace Framework

variable {f : Framework} {l l' : Labelling} {i : Nat}

/-- There is one grounded labelling only. -/
theorem IsGrounded.unique (h : f.IsGrounded l) (h' : f.IsGrounded l') : l = l' :=
  h.isComplete.eq_of_accepted h'.isComplete (h.accepted_subset l' h'.isComplete)
    (h'.accepted_subset l h.isComplete)

/-- If nothing is undecided in the grounded labelling, it is the only complete one. -/
theorem IsGrounded.eq_of_isComplete (h : f.IsGrounded l) (hu : .undecided ∉ l)
    (h' : f.IsComplete l') : l' = l := by
  have hs := h.accepted_subset l' h'
  have hpref : f.IsPreferred l := (isStable_iff_isPreferred.1 ⟨h.isComplete, hu⟩).1
  exact h'.eq_of_accepted h.isComplete (hpref.2 l' h' hs) hs

/-! ## Frameworks without cycles -/

/-- No argument attacks itself, neither directly nor along a path of attacks. -/
def IsAcyclic (f : Framework) : Prop := ∀ i, ¬ Relation.TransGen f.Attacks i i

/-- Where every attack goes to an argument with a larger number, there is no cycle. -/
theorem isAcyclic_of_lt (h : ∀ a ∈ f.attacks, a.origin < a.target) : f.IsAcyclic := by
  have hlt : ∀ {i j}, Relation.TransGen f.Attacks i j → i < j := by
    intro i j hij
    induction hij with
    | single ha => exact Int.ofNat_lt.1 (h _ ha)
    | tail _ ha ih => exact ih.trans (Int.ofNat_lt.1 (h _ ha))
  exact fun i hi => Nat.lt_irrefl i (hlt hi)

/-- Going from attacked arguments to their attackers comes to an end. -/
theorem IsAcyclic.wellFounded (ha : f.IsAcyclic) (hf : f.WellFormed) : WellFounded f.Attacks := by
  obtain ⟨n, hn⟩ := hf.exists_size_eq
  have hirrefl : Std.Irrefl (Relation.TransGen f.Attacks) := ⟨ha⟩
  have hstrict : IsStrictOrder Nat (Relation.TransGen f.Attacks) := {}
  -- Paths of attacks order the numbers below `n`, of which there are finitely many, and no others
  -- are in an attack.
  have hwf := (Set.finite_Iio n).wellFoundedOn (r := Relation.TransGen f.Attacks)
  rw [Set.wellFoundedOn_iff] at hwf
  refine Subrelation.wf (fun {i j} hij => ?_) hwf
  exact ⟨.single hij, (hf.lt_of_attacks hn hij).1, (hf.lt_of_attacks hn hij).2⟩

/-- An argument that a complete labelling leaves undecided has an attacker that is undecided. -/
theorem IsComplete.exists_undecided (h : f.IsComplete l) (hf : f.WellFormed)
    (hi : l[i]? = some .undecided) : ∃ j, f.Attacks j i ∧ l[j]? = some .undecided := by
  obtain ⟨n, hn⟩ := hf.exists_size_eq
  have hil := (List.getElem?_eq_some_iff.1 hi).1
  have hacc : l[i]? ≠ some .accepted := by simp [hi]
  have hrej : l[i]? ≠ some .rejected := by simp [hi]
  by_contra hno
  push Not at hno
  -- Were every attacker decided, they would all be rejected, since none is accepted.
  refine hacc ((h.2 i hil).1.2 fun j hj => ?_)
  have hjl : j < l.length := by
    have := (hf.lt_of_attacks hn hj).1
    exact h.lt_length_iff.2 (by omega)
  have hs := List.getElem?_eq_getElem hjl
  cases hlj : l[j] with
  | accepted => exact absurd ((h.2 i hil).2.2 ⟨j, hj, by rw [hs, hlj]⟩) hrej
  | rejected => rw [hs, hlj]
  | undecided => exact absurd (by rw [hs, hlj]) (hno j hj)

/-- **Without cycles everything is decided.** An undecided argument would have an undecided
attacker, that one another, and so on. -/
theorem IsAcyclic.undecided_not_mem (ha : f.IsAcyclic) (hf : f.WellFormed) (h : f.IsComplete l) :
    .undecided ∉ l := by
  have hnone : ∀ i : Nat, l[i]? ≠ some .undecided := by
    intro i
    induction i using (ha.wellFounded hf).induction with
    | _ i ih =>
      intro hi
      obtain ⟨j, hj, hju⟩ := h.exists_undecided hf hi
      exact ih j hj hju
  intro hu
  obtain ⟨i, hi⟩ := List.mem_iff_getElem?.1 hu
  exact hnone i hi

/-- Without cycles the grounded labelling is the only one under every semantics. -/
theorem IsGrounded.admits_iff (h : f.IsGrounded l) (ha : f.IsAcyclic) (hf : f.WellFormed)
    (s : Semantics) : f.Admits s l' ↔ l' = l := by
  have hu := ha.undecided_not_mem hf h.isComplete
  have hstable : f.IsStable l := ⟨h.isComplete, hu⟩
  constructor
  · exact fun hl' => h.eq_of_isComplete hu (Admits.isComplete hl')
  · rintro rfl
    cases s with
    | complete => exact h.isComplete
    | stable => exact hstable
    | preferred => exact (isStable_iff_isPreferred.1 hstable).1

end Framework

/-! ## What is computed -/

namespace Engine

open Dialectic.Sat (Solver)

variable {σ σ' : Type} {f : Framework}

/-- **The grounded labelling is computed.** Whatever models the solvers answer with, there are
complete labellings, exactly one of them accepts only what all of them accept, and the search for
preferred labellings records nothing, so that the labelling with nothing decided is given instead,
exactly if that is the only complete labelling. -/
theorem complete_grounded (hf : f.WellFormed) (S : Nat → Solver σ) (S' : Nat → Solver σ') :
    ∃ ls found, (ofSolvers S).complete f = .ok ls ∧ ls.Nodup ∧ ls ≠ [] ∧
      (∃! l, l ∈ ls ∧ ∀ l' ∈ ls, l.accepted ⊆ l'.accepted) ∧
      (ofSolvers S').recorded f = .ok found ∧
      (ofSolvers S').preferred f =
        .ok (if found = [] then [List.replicate f.size.toNat .undecided] else found) ∧
      (found = [] ↔ ls = [List.replicate f.size.toNat .undecided]) := by
  obtain ⟨ls, hls, h⟩ := complete_spec hf S
  obtain ⟨found, hfound, hex⟩ := recorded_spec hf S'
  obtain ⟨g, hg⟩ := hf.exists_isGrounded
  have hgls : g ∈ ls := (h.mem_iff g).2 hg.isComplete
  refine ⟨ls, found, hls, h.nodup, List.ne_nil_of_mem hgls, ⟨g, ⟨hgls, ?_⟩, ?_⟩, hfound,
    by rw [preferred_eq, hfound]; rfl, ?_⟩
  · exact fun l' hl' => hg.accepted_subset l' ((h.mem_iff l').1 hl')
  · rintro l ⟨hl, hleast⟩
    refine Framework.IsGrounded.unique ⟨(h.mem_iff l).1 hl, fun l' hl' => ?_⟩ hg
    exact hleast l' ((h.mem_iff l').2 hl')
  · rw [hex.eq_nil_iff]
    constructor
    · intro hnil
      exact h.eq_singleton fun l =>
        hf.isComplete_iff_eq_replicate (Int.toNat_of_nonneg hf.1).symm hnil
    · intro hone l hl
      have hmem := (h.mem_iff l).2 hl
      rw [hone, List.mem_singleton] at hmem
      rw [hmem, Labelling.accepted_replicate]

/-- Three arguments that attack each other in turn. -/
theorem complete_grounded_odd_cycle :
    ∃ ls found, (ofSolvers fun _ => .learning).complete
      ⟨3, [⟨0, 1⟩, ⟨1, 2⟩, ⟨2, 0⟩], none⟩ = .ok ls ∧
      ls.Nodup ∧ ls ≠ [] ∧ (∃! l, l ∈ ls ∧ ∀ l' ∈ ls, l.accepted ⊆ l'.accepted) ∧
      (ofSolvers fun _ => .learning).recorded ⟨3, [⟨0, 1⟩, ⟨1, 2⟩, ⟨2, 0⟩], none⟩ = .ok found ∧
      (ofSolvers fun _ => .learning).preferred ⟨3, [⟨0, 1⟩, ⟨1, 2⟩, ⟨2, 0⟩], none⟩ =
        .ok (if found = [] then [List.replicate 3 .undecided] else found) ∧
      (found = [] ↔ ls = [List.replicate 3 .undecided]) :=
  complete_grounded (by decide) (fun _ => .learning) fun _ => .learning

/-- **One labelling without cycles.** Where no argument attacks itself along a path of attacks, one
complete labelling, which decides every argument, is all that is computed under each semantics,
whatever models the solvers answer with. -/
theorem labellings_eq_singleton (hf : f.WellFormed) (ha : f.IsAcyclic) :
    ∃ l : Labelling, f.IsComplete l ∧ .undecided ∉ l ∧
      ∀ (σ : Type) (S : Nat → Solver σ) (s : Semantics),
        (ofSolvers S).labellings f s = .ok [l] := by
  obtain ⟨g, hg⟩ := hf.exists_isGrounded
  refine ⟨g, hg.isComplete, ha.undecided_not_mem hf hg.isComplete, fun σ S s => ?_⟩
  obtain ⟨ls, hls, h⟩ := labellings_spec hf S s
  rw [hls, h.eq_singleton fun l => hg.admits_iff ha hf s]

/-- An attack that is answered by another, on two ways. -/
theorem labellings_eq_singleton_chain :
    ∃ l : Labelling, Framework.IsComplete ⟨4, [⟨0, 1⟩, ⟨1, 2⟩, ⟨1, 3⟩, ⟨2, 3⟩], none⟩ l ∧
      .undecided ∉ l ∧ ∀ (σ : Type) (S : Nat → Solver σ) (s : Semantics),
        (ofSolvers S).labellings ⟨4, [⟨0, 1⟩, ⟨1, 2⟩, ⟨1, 3⟩, ⟨2, 3⟩], none⟩ s = .ok [l] :=
  labellings_eq_singleton (by decide) (Framework.isAcyclic_of_lt (by decide))

end Engine

end Dialectic
