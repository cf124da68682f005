import Dialectic.Proofs.Attackers
import Mathlib.Data.List.Sort

/-!
# Labellings and extensions

A complete labelling is determined by the arguments it accepts (`IsComplete.eq_of_accepted`), and
whether the status of an argument is right depends on the statuses of its attackers alone
(`isSettled_congr`). Adding an argument that an admissible set defends keeps it admissible
(`IsAdmissible.cons`), so every admissible set is contained in a least complete extension
(`IsAdmissible.exists_least`), and there always is a complete labelling that accepts as little as
possible (`WellFormed.exists_isGrounded`). Main statement: under each semantics the sets of accepted
arguments of the labellings are the extensions (`extends_accepted`, `exists_admits`).
-/

namespace Dialectic.Framework

variable {f : Framework} {n : Nat} {l l' : Labelling} {e e' : List Nat} {i j : Nat}

/-! ## Complete labellings -/

/-- A labelling of the framework has a status for every argument and no others. -/
theorem IsComplete.lt_length_iff (h : f.IsComplete l) : i < l.length ↔ (i : Int) < f.size := by
  have := h.1
  omega

/-- A complete labelling has as many statuses as there are arguments. -/
theorem IsComplete.length_eq (h : f.IsComplete l) (hn : f.size = n) : l.length = n := by
  have := h.1
  omega

/-- An argument is accepted exactly if every attacker is rejected. -/
theorem IsComplete.mem_accepted_iff (h : f.IsComplete l) (hi : i < l.length) :
    i ∈ l.accepted ↔ ∀ j, f.Attacks j i → l[j]? = some .rejected :=
  Labelling.mem_accepted.trans (h.2 i hi).1

/-- An argument is rejected exactly if some attacker is accepted. -/
theorem IsComplete.rejected_iff (h : f.IsComplete l) (hi : i < l.length) :
    l[i]? = some .rejected ↔ ∃ j ∈ l.accepted, f.Attacks j i := by
  rw [(h.2 i hi).2]
  constructor
  · rintro ⟨j, hj, ha⟩
    exact ⟨j, Labelling.mem_accepted.2 ha, hj⟩
  · rintro ⟨j, ha, hj⟩
    exact ⟨j, hj, Labelling.mem_accepted.1 ha⟩

/-- A labelling that accepts more rejects more. -/
theorem IsComplete.rejected_of_subset (h : f.IsComplete l) (h' : f.IsComplete l')
    (hs : l.accepted ⊆ l'.accepted) (hr : l[i]? = some .rejected) : l'[i]? = some .rejected := by
  have hi := (List.getElem?_eq_some_iff.1 hr).1
  obtain ⟨j, hj, ha⟩ := (h.rejected_iff hi).1 hr
  exact (h'.rejected_iff (h'.lt_length_iff.2 (h.lt_length_iff.1 hi))).2 ⟨j, hs hj, ha⟩

/-- **Accepted arguments determine the labelling.** Complete labellings that accept the same are the
same. -/
theorem IsComplete.eq_of_accepted (h : f.IsComplete l) (h' : f.IsComplete l')
    (hs : l.accepted ⊆ l'.accepted) (hs' : l'.accepted ⊆ l.accepted) : l = l' := by
  have hlen : l.length = l'.length := by
    have := h.1
    have := h'.1
    omega
  apply List.ext_getElem hlen
  intro i hi hi'
  have hl := List.getElem?_eq_getElem hi
  have hl' := List.getElem?_eq_getElem hi'
  have hacc : l[i] = .accepted ↔ l'[i] = .accepted := by
    have : i ∈ l.accepted ↔ i ∈ l'.accepted := ⟨@hs i, @hs' i⟩
    simpa [Labelling.mem_accepted, hl, hl'] using this
  have hrej : l[i] = .rejected ↔ l'[i] = .rejected := by
    have : l[i]? = some .rejected ↔ l'[i]? = some .rejected :=
      ⟨h.rejected_of_subset h' hs, h'.rejected_of_subset h hs'⟩
    simpa [hl, hl'] using this
  cases hli : l[i] <;> cases hli' : l'[i] <;> simp_all

/-! ## Settled arguments -/

/-- The argument is accepted exactly if every attacker is rejected, and rejected exactly if one is
accepted. -/
def IsSettled (f : Framework) (l : Labelling) (i : Nat) : Prop :=
  (l[i]? = some .accepted ↔ ∀ j, f.Attacks j i → l[j]? = some .rejected) ∧
    (l[i]? = some .rejected ↔ ∃ j, f.Attacks j i ∧ l[j]? = some .accepted)

/-- A labelling is complete if every argument has a status and is settled. -/
theorem isComplete_iff :
    f.IsComplete l ↔ (l.length : Int) = f.size ∧ ∀ i < l.length, f.IsSettled l i := Iff.rfl

/-- **Only attackers matter.** Arguments of one status whose attackers have the same statuses are
settled alike. -/
theorem isSettled_congr {g : Framework} (hi : l'[j]? = l[i]?)
    (hs : ∀ s : Option Status, (∃ k, g.Attacks k j ∧ l'[k]? = s) ↔ ∃ k, f.Attacks k i ∧ l[k]? = s) :
    g.IsSettled l' j ↔ f.IsSettled l i := by
  have hall : (∀ k, g.Attacks k j → l'[k]? = some .rejected) ↔
      ∀ k, f.Attacks k i → l[k]? = some .rejected := by
    constructor
    · intro h k hk
      obtain ⟨k', hk', hkk⟩ := (hs l[k]?).2 ⟨k, hk, rfl⟩
      rw [← hkk]
      exact h k' hk'
    · intro h k hk
      obtain ⟨k', hk', hkk⟩ := (hs l'[k]?).1 ⟨k, hk, rfl⟩
      rw [← hkk]
      exact h k' hk'
  rw [IsSettled, IsSettled, hi, hall, hs]

/-! ## Sets of arguments that defend themselves -/

/-- A larger set defends more. -/
theorem Defends.mono (h : f.Defends e i) (hs : e ⊆ e') : f.Defends e' i := by
  intro j hj
  obtain ⟨k, hk, ha⟩ := h j hj
  exact ⟨k, hs hk, ha⟩

/-- A conflict-free set does not attack what it defends. -/
theorem IsConflictFree.not_attacks (h : f.IsConflictFree e) (hd : f.Defends e i) (hj : j ∈ e) :
    ¬ f.Attacks j i := by
  intro ha
  obtain ⟨k, hk, hkj⟩ := hd j ha
  exact h k hk j hj hkj

/-- **The fundamental lemma.** An admissible set stays admissible with an argument that it
defends. -/
theorem IsAdmissible.cons (h : f.IsAdmissible e) (hi : (i : Int) < f.size) (hd : f.Defends e i) :
    f.IsAdmissible (i :: e) := by
  obtain ⟨hlt, hc, hdef⟩ := h
  -- The argument attacks no member: a member would defend itself by attacking the argument.
  have hout : ∀ j ∈ e, ¬ f.Attacks i j := by
    intro j hj ha
    obtain ⟨k, hk, hki⟩ := hdef j hj i ha
    exact hc.not_attacks hd hk hki
  have hself : ¬ f.Attacks i i := by
    intro ha
    obtain ⟨k, hk, hki⟩ := hd i ha
    exact hc.not_attacks hd hk hki
  refine ⟨?_, ?_, ?_⟩
  · intro j hj
    rcases List.mem_cons.1 hj with rfl | hj
    · exact hi
    · exact hlt j hj
  · intro a ha b hb
    rcases List.mem_cons.1 ha with rfl | hae <;> rcases List.mem_cons.1 hb with rfl | hbe
    · exact hself
    · exact hout b hbe
    · exact hc.not_attacks hd hae
    · exact hc a hae b hbe
  · intro j hj
    have hsub : e ⊆ i :: e := List.subset_cons_self i e
    rcases List.mem_cons.1 hj with rfl | hj
    · exact hd.mono hsub
    · exact (hdef j hj).mono hsub

/-- A complete extension is admissible. -/
theorem IsCompleteExtension.isAdmissible (h : f.IsCompleteExtension e) : f.IsAdmissible e :=
  ⟨fun i hi => ((h.2 i).1 hi).1, h.1, fun i hi => ((h.2 i).1 hi).2⟩

/-- **Least complete extensions.** Every admissible set is contained in a complete extension that
every complete extension around the set contains. -/
theorem IsAdmissible.exists_least (hn : f.size = n) (h : f.IsAdmissible e) :
    ∃ e', e ⊆ e' ∧ f.IsCompleteExtension e' ∧
      ∀ c, f.IsCompleteExtension c → e ⊆ c → e' ⊆ c := by
  -- By induction on the number of arguments outside the set.
  induction hk : ((List.range n).filter fun i => decide (i ∉ e)).length
    using Nat.strong_induction_on generalizing e with
  | _ k ih =>
    by_cases hd : ∃ i < n, i ∉ e ∧ f.Defends e i
    · obtain ⟨i, hi, hie, hd⟩ := hd
      have hlt : ((List.range n).filter fun j => decide (j ∉ i :: e)).length < k := by
        have hfilter : ((List.range n).filter fun j => decide (j ∉ i :: e)) =
            ((List.range n).filter fun j => decide (j ∉ e)).filter fun j => decide (j ≠ i) := by
          rw [List.filter_filter]
          apply List.filter_congr
          intro j _
          simp
        rw [hfilter, ← hk, List.length_filter_lt_length_iff_exists]
        exact ⟨i, by simp [hi, hie], by simp⟩
      obtain ⟨e', hs, hc, hleast⟩ := ih _ hlt (h.cons (by omega) hd) rfl
      refine ⟨e', fun j hj => hs (List.mem_cons_of_mem i hj), hc, fun c hcc hec => ?_⟩
      refine hleast c hcc (List.cons_subset.2 ⟨?_, hec⟩)
      exact (hcc.2 i).2 ⟨by omega, hd.mono hec⟩
    · refine ⟨e, List.Subset.refl e, ⟨h.2.1, fun i => ⟨fun hi => ⟨h.1 i hi, h.2.2 i hi⟩, ?_⟩⟩,
        fun c _ hec => hec⟩
      rintro ⟨hi, hdi⟩
      by_contra hie
      exact hd ⟨i, by omega, hie, hdi⟩

/-- The empty set is admissible. -/
theorem isAdmissible_nil (f : Framework) : f.IsAdmissible [] := by
  refine ⟨?_, ?_, ?_⟩
  · simp
  · intro i hi
    simp at hi
  · simp

/-! ## The labelling of a set -/

/-- The labelling that accepts the members of a set and rejects what they attack. -/
def labellingOf (f : Framework) (e : List Nat) : Labelling :=
  (List.range f.size.toNat).map fun i =>
    if i ∈ e then .accepted else if ∃ j ∈ e, f.Attacks j i then .rejected else .undecided

/-- The labelling accepts what is in the set and rejects what the set attacks. -/
theorem getElem?_labellingOf (hi : (i : Int) < f.size) :
    (f.labellingOf e)[i]? =
      some (if i ∈ e then .accepted
        else if ∃ j ∈ e, f.Attacks j i then .rejected
        else .undecided) := by
  rw [labellingOf, List.getElem?_map, List.getElem?_range (by omega), Option.map_some]

/-- The labelling of a set of arguments accepts its members. -/
theorem mem_accepted_labellingOf (he : ∀ i ∈ e, (i : Int) < f.size) :
    i ∈ (f.labellingOf e).accepted ↔ i ∈ e := by
  rw [Labelling.mem_accepted]
  constructor
  · intro h
    have hi := (List.getElem?_eq_some_iff.1 h).1
    rw [labellingOf, List.length_map, List.length_range] at hi
    rw [getElem?_labellingOf (by omega)] at h
    by_contra hie
    rw [if_neg hie] at h
    split at h <;> simp at h
  · intro hi
    rw [getElem?_labellingOf (he i hi), if_pos hi]

/-- The labelling of an increasing list of arguments accepts that list. -/
theorem accepted_labellingOf (he : ∀ i ∈ e, (i : Int) < f.size) (hp : e.Pairwise (· < ·)) :
    (f.labellingOf e).accepted = e :=
  (Labelling.indices_pairwise_lt _ _).eq_of_mem_iff hp fun _ => mem_accepted_labellingOf he

/-- The labelling of a conflict-free set rejects what its members attack. -/
theorem IsConflictFree.rejected_labellingOf_iff (h : f.IsConflictFree e) (hi : (i : Int) < f.size) :
    (f.labellingOf e)[i]? = some .rejected ↔ ∃ j ∈ e, f.Attacks j i := by
  rw [getElem?_labellingOf hi]
  constructor
  · intro hr
    split at hr
    · simp at hr
    · split at hr
      · assumption
      · simp at hr
  · rintro ⟨j, hj, ha⟩
    rw [if_neg fun hie => h j hj i hie ha, if_pos ⟨j, hj, ha⟩]

/-- The labelling of a complete extension is complete. -/
theorem IsCompleteExtension.isComplete_labellingOf (hf : f.WellFormed)
    (h : f.IsCompleteExtension e) : f.IsComplete (f.labellingOf e) := by
  obtain ⟨n, hn⟩ := hf.exists_size_eq
  have he := h.isAdmissible.1
  have hlen : (f.labellingOf e).length = n := by
    rw [labellingOf, List.length_map, List.length_range]
    omega
  refine ⟨by omega, fun i hi => ⟨?_, ?_⟩⟩
  · rw [← Labelling.mem_accepted, mem_accepted_labellingOf he, h.2]
    constructor
    · rintro ⟨_, hd⟩ j hj
      have hjn := (hf.lt_of_attacks hn hj).1
      exact (h.1.rejected_labellingOf_iff (by omega)).2 (hd j hj)
    · intro hr
      refine ⟨by omega, fun j hj => ?_⟩
      have hjn := (hf.lt_of_attacks hn hj).1
      exact (h.1.rejected_labellingOf_iff (by omega)).1 (hr j hj)
  · rw [h.1.rejected_labellingOf_iff (by omega)]
    refine exists_congr fun j => ?_
    rw [← Labelling.mem_accepted, mem_accepted_labellingOf he, and_comm]

/-! ## Extensions -/

/-- What a complete labelling accepts is a complete extension. -/
theorem IsComplete.isCompleteExtension (hf : f.WellFormed) (h : f.IsComplete l) :
    f.IsCompleteExtension l.accepted := by
  obtain ⟨n, hn⟩ := hf.exists_size_eq
  have hlen : ∀ {i j}, f.Attacks j i → j < l.length := by
    intro i j hj
    rw [h.lt_length_iff]
    have := (hf.lt_of_attacks hn hj).1
    omega
  constructor
  · intro i hi j hj ha
    have hr := (h.mem_accepted_iff (Labelling.lt_length_of_mem_indices hj)).1 hj i ha
    rw [Labelling.mem_accepted, hr] at hi
    simp at hi
  · intro i
    constructor
    · intro hi
      have hil := Labelling.lt_length_of_mem_indices hi
      refine ⟨h.lt_length_iff.1 hil, fun j hj => ?_⟩
      exact (h.rejected_iff (hlen hj)).1 ((h.mem_accepted_iff hil).1 hi j hj)
    · rintro ⟨hi, hd⟩
      rw [h.mem_accepted_iff (h.lt_length_iff.2 hi)]
      intro j hj
      exact (h.rejected_iff (hlen hj)).2 (hd j hj)

/-- A complete labelling that accepts only what every complete labelling accepts. -/
structure IsGrounded (f : Framework) (l : Labelling) : Prop where
  /-- The labelling is complete. -/
  isComplete : f.IsComplete l
  /-- What is accepted is accepted in every complete labelling. -/
  accepted_subset : ∀ l', f.IsComplete l' → l.accepted ⊆ l'.accepted

/-- **Existence.** A well-formed framework has a grounded labelling: that of the least complete
extension. -/
theorem WellFormed.exists_isGrounded (hf : f.WellFormed) : ∃ l, f.IsGrounded l := by
  obtain ⟨n, hn⟩ := hf.exists_size_eq
  obtain ⟨e, -, hc, hleast⟩ := f.isAdmissible_nil.exists_least hn
  refine ⟨f.labellingOf e, hc.isComplete_labellingOf hf, fun l' hl' i hi => ?_⟩
  have hie : i ∈ e := (mem_accepted_labellingOf hc.isAdmissible.1).1 hi
  exact hleast _ (hl'.isCompleteExtension hf) (List.nil_subset _) hie

/-- A stable extension is complete. -/
theorem IsStableExtension.isCompleteExtension (hf : f.WellFormed) (h : f.IsStableExtension e) :
    f.IsCompleteExtension e := by
  obtain ⟨n, hn⟩ := hf.exists_size_eq
  obtain ⟨hlt, hc, hout⟩ := h
  refine ⟨hc, fun i => ⟨fun hi => ⟨hlt i hi, fun j hj => ?_⟩, ?_⟩⟩
  · have hjn := (hf.lt_of_attacks hn hj).1
    exact hout j (by omega) fun hje => hc j hje i hi hj
  · rintro ⟨hi, hd⟩
    by_contra hie
    obtain ⟨j, hj, ha⟩ := hout i hi hie
    exact hc.not_attacks hd hj ha

/-- A preferred extension is complete. -/
theorem IsPreferredExtension.isCompleteExtension (h : f.IsPreferredExtension e) :
    f.IsCompleteExtension e := by
  obtain ⟨⟨hlt, hc, hd⟩, hmax⟩ := h
  refine ⟨hc, fun i => ⟨fun hi => ⟨hlt i hi, hd i hi⟩, ?_⟩⟩
  rintro ⟨hi, hdi⟩
  have hadm : f.IsAdmissible (i :: e) := IsAdmissible.cons ⟨hlt, hc, hd⟩ hi hdi
  exact hmax _ hadm (List.subset_cons_self i e) List.mem_cons_self

/-- Under every semantics an extension is complete. -/
theorem Extends.isCompleteExtension (hf : f.WellFormed) {s : Semantics} (h : f.Extends s e) :
    f.IsCompleteExtension e := by
  cases s with
  | complete => exact h
  | stable => exact IsStableExtension.isCompleteExtension hf h
  | preferred => exact IsPreferredExtension.isCompleteExtension h

/-- Under every semantics a labelling is complete. -/
theorem Admits.isComplete {s : Semantics} (h : f.Admits s l) : f.IsComplete l := by
  cases s with
  | complete => exact h
  | stable => exact h.1
  | preferred => exact h.1

/-- Under every semantics a labelling has as many statuses as there are arguments. -/
theorem Admits.length_eq {s : Semantics} (h : f.Admits s l) (hn : f.size = n) : l.length = n :=
  (Admits.isComplete h).length_eq hn

/-- In a stable labelling what is not accepted is rejected. -/
theorem IsStable.rejected_of_not_mem (h : f.IsStable l) (hi : i < l.length) (ha : i ∉ l.accepted) :
    l[i]? = some .rejected := by
  have hl := List.getElem?_eq_getElem hi
  rw [Labelling.mem_accepted, hl] at ha
  rw [hl]
  cases hs : l[i] with
  | accepted => exact absurd (by rw [hs]) ha
  | rejected => rfl
  | undecided => exact absurd (hs ▸ List.getElem_mem hi) h.2

/-- The stable labellings are the preferred ones in which nothing is undecided. -/
theorem isStable_iff_isPreferred : f.IsStable l ↔ f.IsPreferred l ∧ .undecided ∉ l := by
  constructor
  · intro h
    refine ⟨⟨h.1, fun l' hl' hs i hi => ?_⟩, h.2⟩
    by_contra ha
    -- What is not accepted is rejected here, and so it is in every labelling that accepts more.
    have hil' := Labelling.lt_length_of_mem_indices hi
    have hr := h.rejected_of_not_mem (h.1.lt_length_iff.2 (hl'.lt_length_iff.1 hil')) ha
    have hr' := h.1.rejected_of_subset hl' hs hr
    rw [Labelling.mem_accepted.1 hi] at hr'
    simp at hr'
  · exact fun h => ⟨h.1.1, h.2⟩

/-- **From labellings to extensions.** What a labelling accepts is an extension of the same
semantics. -/
theorem extends_accepted (hf : f.WellFormed) {s : Semantics} (h : f.Admits s l) :
    f.Extends s l.accepted := by
  obtain ⟨n, hn⟩ := hf.exists_size_eq
  have hc := Admits.isComplete h
  have hext := hc.isCompleteExtension hf
  cases s with
  | complete => exact hext
  | stable =>
    refine ⟨hext.isAdmissible.1, hext.1, fun i hi hie => ?_⟩
    have hil := hc.lt_length_iff.2 hi
    exact (hc.rejected_iff hil).1 (IsStable.rejected_of_not_mem h hil hie)
  | preferred =>
    refine ⟨hext.isAdmissible, fun e' he' hs => ?_⟩
    -- A larger admissible set lies in what a complete labelling accepts, which is no more than
    -- before.
    obtain ⟨c, hec, hcc, -⟩ := he'.exists_least hn
    have hacc : ∀ i, i ∈ (f.labellingOf c).accepted ↔ i ∈ c := fun i =>
      mem_accepted_labellingOf hcc.isAdmissible.1
    have hsub := h.2 _ (hcc.isComplete_labellingOf hf) fun i hi => (hacc i).2 (hec (hs hi))
    exact fun i hi => hsub ((hacc i).2 (hec hi))

/-- **From extensions to labellings.** An extension is what some labelling of the same semantics
accepts. -/
theorem exists_admits (hf : f.WellFormed) {s : Semantics} (hp : e.Pairwise (· < ·))
    (h : f.Extends s e) : ∃ l, f.Admits s l ∧ l.accepted = e := by
  have hext := Extends.isCompleteExtension hf h
  have hc := hext.isComplete_labellingOf hf
  have hacc := accepted_labellingOf hext.isAdmissible.1 hp
  refine ⟨f.labellingOf e, ?_, hacc⟩
  cases s with
  | complete => exact hc
  | stable =>
    refine ⟨hc, fun hu => ?_⟩
    obtain ⟨i, hi⟩ := List.mem_iff_getElem?.1 hu
    have hil := hc.lt_length_iff.1 (List.getElem?_eq_some_iff.1 hi).1
    rw [getElem?_labellingOf hil] at hi
    by_cases hie : i ∈ e
    · simp [hie] at hi
    · simp [hie, h.2.2 i hil hie] at hi
  | preferred =>
    refine ⟨hc, fun l' hl' hs => ?_⟩
    rw [hacc] at hs ⊢
    exact h.2 _ (hl'.isCompleteExtension hf).isAdmissible hs

end Dialectic.Framework
