import Dialectic.Proofs.Labellings
import Mathlib.Logic.Equiv.Fin.Rotate

/-!
# Renumbered arguments

The arguments of a framework are given other numbers, and its attacks are listed in any order and
any number of times (`Renumbers`). A labelling is admitted exactly if it is admitted once its
statuses are moved along with the arguments (`Renumbers.admits_moved_iff`). Main statement: under
every semantics, and whatever models the solvers answer with, the labellings computed for the
renumbered framework are those computed for the framework, moved (`labellings_renumbered`).
-/

namespace Dialectic

/-! ## Moving statuses -/

/-- Every number below `n` is one that a permutation of these numbers gives. -/
theorem exists_perm_eq {n k : Nat} (p : Equiv.Perm (Fin n)) (hk : k < n) :
    ∃ i : Fin n, (p i).val = k := by
  obtain ⟨i, hi⟩ := p.surjective ⟨k, hk⟩
  exact ⟨i, by rw [hi]⟩

namespace Labelling

variable {n : Nat} {l l' : Labelling} {s : Status}

/-- The labelling of `n` arguments in which the argument `p i` has the status that `i` had. -/
def moved (p : Equiv.Perm (Fin n)) (l : Labelling) : Labelling :=
  List.ofFn fun j : Fin n => l[(p.symm j).val]?.getD .undecided

@[simp] theorem length_moved (p : Equiv.Perm (Fin n)) (l : Labelling) : (l.moved p).length = n :=
  List.length_ofFn

/-- The status of an argument is found where the argument is moved to. -/
theorem getElem?_moved (p : Equiv.Perm (Fin n)) (hl : l.length = n) (i : Fin n) :
    (l.moved p)[(p i).val]? = l[i.val]? := by
  have hi : i.val < l.length := by omega
  rw [List.getElem?_eq_getElem (by simp), List.getElem?_eq_getElem hi]
  simp [moved, hi]

/-- Moving the statuses back gives the labelling that they were moved in. -/
theorem moved_symm_moved (p : Equiv.Perm (Fin n)) (hl : l.length = n) :
    (l.moved p).moved p.symm = l := by
  apply List.ext_getElem?
  intro i
  by_cases hi : i < n
  · have h := getElem?_moved p.symm (length_moved p l) (p ⟨i, hi⟩)
    rwa [Equiv.symm_apply_apply, getElem?_moved p hl] at h
  · rw [List.getElem?_eq_none (by simpa using hi), List.getElem?_eq_none (by omega)]

/-- Every labelling of `n` arguments comes about by moving the statuses of one. -/
theorem exists_moved_eq (p : Equiv.Perm (Fin n)) (hl : l.length = n) :
    ∃ l' : Labelling, l'.length = n ∧ l'.moved p = l :=
  ⟨l.moved p.symm, length_moved p.symm l, moved_symm_moved p.symm hl⟩

/-- Moving the statuses makes no status occur and none disappear. -/
theorem mem_moved (p : Equiv.Perm (Fin n)) (hl : l.length = n) : s ∈ l.moved p ↔ s ∈ l := by
  rw [List.mem_iff_getElem?, List.mem_iff_getElem?]
  constructor
  · rintro ⟨k, hk⟩
    have hkn := (List.getElem?_eq_some_iff.1 hk).1
    rw [length_moved] at hkn
    obtain ⟨i, rfl⟩ := exists_perm_eq p hkn
    rw [getElem?_moved p hl] at hk
    exact ⟨i, hk⟩
  · rintro ⟨i, hi⟩
    have hin : i < n := hl ▸ (List.getElem?_eq_some_iff.1 hi).1
    exact ⟨p ⟨i, hin⟩, (getElem?_moved p hl _).trans hi⟩

/-- An argument is accepted where it is moved to exactly if it is accepted. -/
theorem mem_accepted_moved (p : Equiv.Perm (Fin n)) (hl : l.length = n) (i : Fin n) :
    (p i).val ∈ (l.moved p).accepted ↔ i.val ∈ l.accepted := by
  rw [mem_accepted, mem_accepted, getElem?_moved p hl]

/-- Moving the statuses keeps which of two labellings accepts more. -/
theorem accepted_moved_subset_iff (p : Equiv.Perm (Fin n)) (hl : l.length = n)
    (hl' : l'.length = n) :
    (l.moved p).accepted ⊆ (l'.moved p).accepted ↔ l.accepted ⊆ l'.accepted := by
  constructor
  · intro h i hi
    have hin : i < n := hl ▸ lt_length_of_mem_indices hi
    exact (mem_accepted_moved p hl' ⟨i, hin⟩).1 (h ((mem_accepted_moved p hl ⟨i, hin⟩).2 hi))
  · intro h k hk
    have hkn := lt_length_of_mem_indices hk
    rw [length_moved] at hkn
    obtain ⟨i, rfl⟩ := exists_perm_eq p hkn
    exact (mem_accepted_moved p hl' i).2 (h ((mem_accepted_moved p hl i).1 hk))

end Labelling

/-! ## The renumbered framework -/

namespace Framework

variable {f g : Framework} {l : Labelling} {n k k' : Nat} {p : Equiv.Perm (Fin n)} {s : Semantics}

/-- The second framework is the first one, of `n` arguments, with every argument `i` numbered `p i`.
Its attacks are listed in any order, and each of them any number of times. -/
structure Renumbers (p : Equiv.Perm (Fin n)) (f g : Framework) : Prop where
  /-- The first framework has `n` arguments. -/
  size_eq : f.size = n
  /-- The second framework has `n` arguments. -/
  size_eq' : g.size = n
  /-- The attacks of the second framework are those of the first between the new numbers. -/
  mem_attacks_iff : ∀ a, a ∈ g.attacks ↔ ∃ i j : Fin n, f.Attacks i j ∧ a = ⟨(p i).val, (p j).val⟩

namespace Renumbers

/-- What attacks what in the second framework. -/
theorem attacks_iff (h : Renumbers p f g) :
    g.Attacks k k' ↔ ∃ i j : Fin n, f.Attacks i j ∧ k = p i ∧ k' = p j := by
  rw [Attacks, h.mem_attacks_iff]
  simp only [Attack.mk.injEq, Int.natCast_inj]

/-- The second framework is well-formed. -/
theorem wellFormed (h : Renumbers p f g) : g.WellFormed := by
  have hn := h.size_eq'
  refine ⟨by omega, fun a ha => ?_⟩
  obtain ⟨i, j, -, rfl⟩ := (h.mem_attacks_iff a).1 ha
  simp only [Attack.isWithin, decide_eq_true_eq]
  omega

/-- An argument is settled where it is moved to exactly if it is settled where it was. -/
theorem isSettled_moved_iff (h : Renumbers p f g) (hf : f.WellFormed) (hl : l.length = n)
    (i : Fin n) : g.IsSettled (l.moved p) (p i) ↔ f.IsSettled l i := by
  refine isSettled_congr (Labelling.getElem?_moved p hl i) fun s => ?_
  constructor
  · rintro ⟨k, hk, hs⟩
    obtain ⟨j, i', hji, rfl, hi⟩ := h.attacks_iff.1 hk
    obtain rfl : i = i' := p.injective (Fin.ext hi)
    rw [Labelling.getElem?_moved p hl] at hs
    exact ⟨j, hji, hs⟩
  · rintro ⟨j, hj, hs⟩
    have hjn := (hf.lt_of_attacks h.size_eq hj).1
    exact ⟨p ⟨j, hjn⟩, h.attacks_iff.2 ⟨⟨j, hjn⟩, i, hj, rfl, rfl⟩,
      (Labelling.getElem?_moved p hl _).trans hs⟩

/-- A labelling is complete exactly if it is complete with the statuses moved. -/
theorem isComplete_moved_iff (h : Renumbers p f g) (hf : f.WellFormed) (hl : l.length = n) :
    g.IsComplete (l.moved p) ↔ f.IsComplete l := by
  rw [isComplete_iff, isComplete_iff, Labelling.length_moved, hl, h.size_eq, h.size_eq']
  refine and_congr_right fun _ => ⟨fun hg i hi => ?_, fun hf' k hk => ?_⟩
  · exact (h.isSettled_moved_iff hf hl ⟨i, hi⟩).1 (hg _ (p ⟨i, hi⟩).isLt)
  · obtain ⟨i, rfl⟩ := exists_perm_eq p hk
    exact (h.isSettled_moved_iff hf hl i).2 (hf' i i.isLt)

/-- A labelling is preferred exactly if it is preferred with the statuses moved. -/
theorem isPreferred_moved_iff (h : Renumbers p f g) (hf : f.WellFormed) (hl : l.length = n) :
    g.IsPreferred (l.moved p) ↔ f.IsPreferred l := by
  refine and_congr (h.isComplete_moved_iff hf hl) ⟨fun hmax l' hl' hs => ?_, fun hmax m hm hs => ?_⟩
  · have hn' := hl'.length_eq h.size_eq
    have hsub := hmax _ ((h.isComplete_moved_iff hf hn').2 hl')
      ((Labelling.accepted_moved_subset_iff p hl hn').2 hs)
    exact (Labelling.accepted_moved_subset_iff p hn' hl).1 hsub
  · -- What is to be compared comes about by moving statuses, so it is compared before that.
    obtain ⟨l', hn', rfl⟩ := Labelling.exists_moved_eq p (hm.length_eq h.size_eq')
    rw [Labelling.accepted_moved_subset_iff p hl hn'] at hs
    rw [Labelling.accepted_moved_subset_iff p hn' hl]
    exact hmax l' ((h.isComplete_moved_iff hf hn').1 hm) hs

/-- Under every semantics a labelling is admitted exactly if it is admitted with the statuses
moved. -/
theorem admits_moved_iff (h : Renumbers p f g) (hf : f.WellFormed) (hl : l.length = n) :
    g.Admits s (l.moved p) ↔ f.Admits s l := by
  cases s with
  | complete => exact h.isComplete_moved_iff hf hl
  | stable => exact and_congr (h.isComplete_moved_iff hf hl) (not_congr (Labelling.mem_moved p hl))
  | preferred => exact h.isPreferred_moved_iff hf hl

/-- The labellings that the second framework admits are those that the first one admits, moved. -/
theorem admits_iff (h : Renumbers p f g) (hf : f.WellFormed) {m : Labelling} :
    g.Admits s m ↔ ∃ l, f.Admits s l ∧ l.moved p = m := by
  constructor
  · intro hm
    obtain ⟨l, hl, rfl⟩ := Labelling.exists_moved_eq p (hm.length_eq h.size_eq')
    exact ⟨l, (h.admits_moved_iff hf hl).1 hm, rfl⟩
  · rintro ⟨l, hl, rfl⟩
    exact (h.admits_moved_iff hf (hl.length_eq h.size_eq)).2 hl

end Renumbers

end Framework

/-! ## What is computed -/

namespace Engine

open Dialectic.Sat (Solver)

variable {σ σ' : Type} {f g : Framework} {n : Nat} {p : Equiv.Perm (Fin n)}

/-- **Renumbering the arguments.** Under every semantics, and whatever models the solvers answer
with, the labellings of a framework with renumbered arguments are those of the framework with the
statuses moved, each once. -/
theorem labellings_renumbered (hf : f.WellFormed) (h : Framework.Renumbers p f g)
    (S : Nat → Solver σ) (S' : Nat → Solver σ') (s : Semantics) :
    ∃ ls ls', (ofSolvers S).labellings f s = .ok ls ∧ (ofSolvers S').labellings g s = .ok ls' ∧
      ls'.Nodup ∧ ls'.Perm (ls.map (Labelling.moved p)) := by
  obtain ⟨ls, hls, he⟩ := labellings_spec hf S s
  obtain ⟨ls', hls', he'⟩ := labellings_spec h.wellFormed S' s
  have hmoved := he.map (g := Labelling.moved p) fun l l' hl hl' hll => by
    rw [← Labelling.moved_symm_moved p (hl.length_eq h.size_eq), hll,
      Labelling.moved_symm_moved p (hl'.length_eq h.size_eq)]
  exact ⟨ls, ls', hls, hls', he'.nodup, (he'.congr fun _ => h.admits_iff hf).perm hmoved⟩

/-- A chain of two attacks, and once every argument has the number of the next, one of them listed
twice. -/
theorem labellings_renumbered_chain :
    ∃ ls ls',
      (ofSolvers fun _ => .learning).labellings ⟨3, [⟨0, 1⟩, ⟨1, 2⟩], none⟩ .preferred = .ok ls ∧
      (ofSolvers fun _ => .learning).labellings ⟨3, [⟨2, 0⟩, ⟨1, 2⟩, ⟨2, 0⟩], none⟩
        .preferred = .ok ls' ∧
      ls'.Nodup ∧ ls'.Perm (ls.map (Labelling.moved (finRotate 3))) := by
  refine labellings_renumbered (by decide) ⟨rfl, rfl, fun a => ⟨?_, ?_⟩⟩ (fun _ => .learning)
    (fun _ => .learning) .preferred
  · revert a
    decide
  · rintro ⟨i, j, hij, rfl⟩
    revert i j
    decide

end Engine

end Dialectic
