import Dialectic.Proofs.Labellings

/-!
# Two frameworks side by side

The arguments of a second framework are numbered after those of a first one, and the attacks of both
are taken together (`IsSum`). A labelling of the first followed by one of the second is admitted
exactly if both are (`IsSum.admits_append_iff`). Main statement: under every semantics, and whatever
models the solvers answer with, the labellings computed for both frameworks together are those
computed for the first one, each followed by each of those computed for the second
(`labellings_sum`).
-/

namespace Dialectic

/-! ## One labelling after another -/

namespace Labelling

variable {n i : Nat} {l l' m m' : Labelling}

/-- Of two labellings one after the other the second one starts where the first one ends. -/
theorem getElem?_append_add (hl : l.length = n) : (l ++ l')[n + i]? = l'[i]? := by
  rw [List.getElem?_append_right (by omega), hl, Nat.add_sub_cancel_left]

/-- In the first part that is accepted which the first labelling accepts. -/
theorem mem_accepted_append_left (hl : l.length = n) (hi : i < n) :
    i ∈ (l ++ l').accepted ↔ i ∈ l.accepted := by
  rw [mem_accepted, mem_accepted, List.getElem?_append_left (by omega)]

/-- In the second part that is accepted which the second labelling accepts. -/
theorem mem_accepted_append_right (hl : l.length = n) :
    n + i ∈ (l ++ l').accepted ↔ i ∈ l'.accepted := by
  rw [mem_accepted, mem_accepted, getElem?_append_add hl]

/-- Of labellings one after the other more is accepted exactly if more is accepted in both parts. -/
theorem accepted_append_subset_iff (hl : l.length = n) (hm : m.length = n) :
    (l ++ l').accepted ⊆ (m ++ m').accepted ↔
      l.accepted ⊆ m.accepted ∧ l'.accepted ⊆ m'.accepted := by
  constructor
  · intro h
    refine ⟨fun i hi => ?_, fun i hi => ?_⟩
    · have hin : i < n := hl ▸ lt_length_of_mem_indices hi
      exact (mem_accepted_append_left hm hin).1 (h ((mem_accepted_append_left hl hin).2 hi))
    · exact (mem_accepted_append_right hm).1 (h ((mem_accepted_append_right hl).2 hi))
  · rintro ⟨h, h'⟩ k hk
    by_cases hkn : k < n
    · exact (mem_accepted_append_left hm hkn).2 (h ((mem_accepted_append_left hl hkn).1 hk))
    · obtain ⟨i, rfl⟩ := Nat.exists_eq_add_of_le (Nat.not_lt.1 hkn)
      exact (mem_accepted_append_right hm).2 (h' ((mem_accepted_append_right hl).1 hk))

end Labelling

/-! ## Both frameworks together -/

/-- The attack with both ends moved up by a number. -/
def Attack.shift (k : Int) (a : Attack) : Attack := ⟨a.origin + k, a.target + k⟩

namespace Framework

variable {f g u : Framework} {l l' : Labelling} {n i k : Nat} {s : Semantics}

/-- The framework has the arguments of two others, those of the second one numbered after those of
the first. Its attacks are those of both, listed in any order, and each of them any number of
times. -/
structure IsSum (u f g : Framework) : Prop where
  /-- There are as many arguments as in both frameworks together. -/
  size_eq : u.size = f.size + g.size
  /-- The attacks are those of the first framework and, moved up, those of the second. -/
  mem_attacks_iff : ∀ a, a ∈ u.attacks ↔ a ∈ f.attacks ++ g.attacks.map (Attack.shift f.size)

namespace IsSum

/-- The attackers of an argument of the first framework are those that it has there. -/
theorem attacks_iff_left (h : u.IsSum f g) (hg : g.WellFormed) (hn : f.size = n) (hi : i < n) :
    u.Attacks k i ↔ f.Attacks k i := by
  rw [Attacks, h.mem_attacks_iff, List.mem_append, List.mem_map]
  constructor
  · rintro (ha | ⟨b, hb, hba⟩)
    · exact ha
    · -- An attack of the second framework is on an argument that comes later.
      have hb := hg.isWithin hb
      simp only [Attack.shift, Attack.mk.injEq] at hba
      omega
  · exact fun ha => Or.inl ha

/-- The attackers of an argument of the second framework are those that it has there, moved up. -/
theorem attacks_iff_right (h : u.IsSum f g) (hf : f.WellFormed) (hg : g.WellFormed)
    (hn : f.size = n) : u.Attacks k (n + i) ↔ ∃ j, g.Attacks j i ∧ k = n + j := by
  rw [Attacks, h.mem_attacks_iff, List.mem_append, List.mem_map]
  constructor
  · rintro (ha | ⟨⟨o, t⟩, hb, hba⟩)
    · have ha := hf.isWithin ha
      simp only at ha
      omega
    · obtain ⟨j, rfl⟩ := Int.eq_ofNat_of_zero_le (hg.isWithin hb).1.1
      simp only [Attack.shift, Attack.mk.injEq] at hba
      obtain rfl : t = (i : Int) := by omega
      exact ⟨j, hb, by omega⟩
  · rintro ⟨j, hj, rfl⟩
    refine Or.inr ⟨⟨j, i⟩, hj, ?_⟩
    simp only [Attack.shift, Attack.mk.injEq]
    omega

/-- Both frameworks together are well-formed if each of them is. -/
theorem wellFormed (h : u.IsSum f g) (hf : f.WellFormed) (hg : g.WellFormed) : u.WellFormed := by
  have hsize := h.size_eq
  have hf₀ := hf.1
  have hg₀ := hg.1
  refine ⟨by omega, fun a ha => ?_⟩
  rw [h.mem_attacks_iff, List.mem_append, List.mem_map] at ha
  simp only [Attack.isWithin, decide_eq_true_eq]
  rcases ha with ha | ⟨b, hb, rfl⟩
  · have := hf.isWithin ha
    omega
  · have := hg.isWithin hb
    simp only [Attack.shift]
    omega

/-- In the first part an argument is settled exactly if it is settled in the first framework. -/
theorem isSettled_append_left (h : u.IsSum f g) (hf : f.WellFormed) (hg : g.WellFormed)
    (hn : f.size = n) (hl : l.length = n) (hi : i < n) :
    u.IsSettled (l ++ l') i ↔ f.IsSettled l i := by
  refine isSettled_congr (List.getElem?_append_left (by omega)) fun s => exists_congr fun j => ?_
  rw [h.attacks_iff_left hg hn hi]
  refine and_congr_right fun hj => ?_
  have hjn := (hf.lt_of_attacks hn hj).1
  rw [List.getElem?_append_left (by omega)]

/-- In the second part an argument is settled exactly if it is settled in the second framework. -/
theorem isSettled_append_right (h : u.IsSum f g) (hf : f.WellFormed) (hg : g.WellFormed)
    (hn : f.size = n) (hl : l.length = n) : u.IsSettled (l ++ l') (n + i) ↔ g.IsSettled l' i := by
  refine isSettled_congr (Labelling.getElem?_append_add hl) fun s => ?_
  constructor
  · rintro ⟨k, hk, hs⟩
    obtain ⟨j, hj, rfl⟩ := (h.attacks_iff_right hf hg hn).1 hk
    rw [Labelling.getElem?_append_add hl] at hs
    exact ⟨j, hj, hs⟩
  · rintro ⟨j, hj, hs⟩
    exact ⟨n + j, (h.attacks_iff_right hf hg hn).2 ⟨j, hj, rfl⟩,
      (Labelling.getElem?_append_add hl).trans hs⟩

/-- Two labellings one after the other are complete exactly if both are. -/
theorem isComplete_append_iff (h : u.IsSum f g) (hf : f.WellFormed) (hg : g.WellFormed)
    (hn : f.size = n) (hl : l.length = n) :
    u.IsComplete (l ++ l') ↔ f.IsComplete l ∧ g.IsComplete l' := by
  have hsize := h.size_eq
  rw [isComplete_iff, isComplete_iff, isComplete_iff, List.length_append]
  constructor
  · rintro ⟨hlen, hset⟩
    refine ⟨⟨by omega, fun i hi => ?_⟩, by omega, fun i hi => ?_⟩
    · exact (h.isSettled_append_left hf hg hn hl (by omega)).1 (hset i (by omega))
    · exact (h.isSettled_append_right hf hg hn hl).1 (hset (n + i) (by omega))
  · rintro ⟨⟨hlen, hset⟩, hlen', hset'⟩
    refine ⟨by omega, fun k hk => ?_⟩
    by_cases hkn : k < n
    · exact (h.isSettled_append_left hf hg hn hl hkn).2 (hset k (by omega))
    · obtain ⟨i, rfl⟩ := Nat.exists_eq_add_of_le (Nat.not_lt.1 hkn)
      exact (h.isSettled_append_right hf hg hn hl).2 (hset' i (by omega))

/-- Every complete labelling of both frameworks together consists of two, one after the other. -/
theorem exists_append_eq (h : u.IsSum f g) (hg : g.WellFormed) (hn : f.size = n) {m : Labelling}
    (hm : u.IsComplete m) : ∃ l l' : Labelling, l.length = n ∧ l ++ l' = m := by
  have hlen := hm.1
  have hsize := h.size_eq
  have hg₀ := hg.1
  exact ⟨m.take n, m.drop n, by rw [List.length_take]; omega, List.take_append_drop n m⟩

/-- Two labellings one after the other are preferred exactly if both are. -/
theorem isPreferred_append_iff (h : u.IsSum f g) (hf : f.WellFormed) (hg : g.WellFormed)
    (hn : f.size = n) (hl : l.length = n) :
    u.IsPreferred (l ++ l') ↔ f.IsPreferred l ∧ g.IsPreferred l' := by
  constructor
  · rintro ⟨hc, hmax⟩
    obtain ⟨hcl, hcl'⟩ := (h.isComplete_append_iff hf hg hn hl).1 hc
    -- One part is replaced by a labelling that accepts more, and the other one is kept.
    refine ⟨⟨hcl, fun m hm hs => ?_⟩, hcl', fun m' hm' hs => ?_⟩
    · have hmn := hm.length_eq hn
      have hsub := hmax (m ++ l') ((h.isComplete_append_iff hf hg hn hmn).2 ⟨hm, hcl'⟩)
        ((Labelling.accepted_append_subset_iff hl hmn).2 ⟨hs, List.Subset.refl _⟩)
      exact ((Labelling.accepted_append_subset_iff hmn hl).1 hsub).1
    · have hsub := hmax (l ++ m') ((h.isComplete_append_iff hf hg hn hl).2 ⟨hcl, hm'⟩)
        ((Labelling.accepted_append_subset_iff hl hl).2 ⟨List.Subset.refl _, hs⟩)
      exact ((Labelling.accepted_append_subset_iff hl hl).1 hsub).2
  · rintro ⟨⟨hcl, hmax⟩, hcl', hmax'⟩
    refine ⟨(h.isComplete_append_iff hf hg hn hl).2 ⟨hcl, hcl'⟩, fun x hx hs => ?_⟩
    obtain ⟨m, m', hmn, rfl⟩ := h.exists_append_eq hg hn hx
    obtain ⟨hcm, hcm'⟩ := (h.isComplete_append_iff hf hg hn hmn).1 hx
    rw [Labelling.accepted_append_subset_iff hl hmn] at hs
    rw [Labelling.accepted_append_subset_iff hmn hl]
    exact ⟨hmax m hcm hs.1, hmax' m' hcm' hs.2⟩

/-- Under every semantics two labellings one after the other are admitted exactly if both are. -/
theorem admits_append_iff (h : u.IsSum f g) (hf : f.WellFormed) (hg : g.WellFormed)
    (hn : f.size = n) (hl : l.length = n) :
    u.Admits s (l ++ l') ↔ f.Admits s l ∧ g.Admits s l' := by
  cases s with
  | complete => exact h.isComplete_append_iff hf hg hn hl
  | stable =>
    simp only [Admits, IsStable, h.isComplete_append_iff hf hg hn hl, List.mem_append, not_or]
    exact and_and_and_comm
  | preferred => exact h.isPreferred_append_iff hf hg hn hl

/-- The labellings that both frameworks together admit are those of the first one followed by those
of the second. -/
theorem admits_iff (h : u.IsSum f g) (hf : f.WellFormed) (hg : g.WellFormed) {m : Labelling} :
    u.Admits s m ↔ ∃ q : Labelling × Labelling,
      (f.Admits s q.1 ∧ g.Admits s q.2) ∧ q.1 ++ q.2 = m := by
  obtain ⟨n, hn⟩ := hf.exists_size_eq
  constructor
  · intro hm
    obtain ⟨l, l', hl, rfl⟩ := h.exists_append_eq hg hn hm.isComplete
    exact ⟨(l, l'), (h.admits_append_iff hf hg hn hl).1 hm, rfl⟩
  · rintro ⟨⟨l, l'⟩, hq, rfl⟩
    exact (h.admits_append_iff hf hg hn (hq.1.length_eq hn)).2 hq

end IsSum

end Framework

/-! ## What is computed -/

namespace Engine

open Dialectic.Sat (Solver)

variable {σ σ' σ'' : Type} {f g u : Framework}

/-- **Two frameworks side by side.** Under every semantics, and whatever models the solvers answer
with, the labellings of both frameworks together are those of the first one, each followed by each
of those of the second, each once. -/
theorem labellings_sum (hf : f.WellFormed) (hg : g.WellFormed) (h : u.IsSum f g)
    (S : Nat → Solver σ) (S' : Nat → Solver σ') (S'' : Nat → Solver σ'') (s : Semantics) :
    ∃ ls ls' us, (ofSolvers S).labellings f s = .ok ls ∧ (ofSolvers S').labellings g s = .ok ls' ∧
      (ofSolvers S'').labellings u s = .ok us ∧ us.Nodup ∧
      us.Perm ((ls ×ˢ ls').map fun q => q.1 ++ q.2) ∧ us.length = ls.length * ls'.length := by
  obtain ⟨n, hn⟩ := hf.exists_size_eq
  obtain ⟨ls, hls, he⟩ := labellings_spec hf S s
  obtain ⟨ls', hls', he'⟩ := labellings_spec hg S' s
  obtain ⟨us, hus, heu⟩ := labellings_spec (h.wellFormed hf hg) S'' s
  -- The first parts are of one length, so no two pairs give the same labelling.
  have hpairs := (he.product he').map (g := fun q => q.1 ++ q.2) fun q r hq hr hqr => by
    have hlen : q.1.length = r.1.length := by rw [hq.1.length_eq hn, hr.1.length_eq hn]
    exact Prod.ext_iff.2 (List.append_inj hqr hlen)
  have hperm := (heu.congr fun _ => h.admits_iff hf hg).perm hpairs
  refine ⟨ls, ls', us, hls, hls', hus, heu.nodup, hperm, ?_⟩
  rw [hperm.length_eq, List.length_map, List.length_product]

/-- Two arguments that attack each other beside one that attacks itself, of which nothing is ever
accepted. -/
theorem labellings_sum_self_attack :
    ∃ ls ls' us,
      (ofSolvers fun _ => .learning).labellings ⟨2, [⟨0, 1⟩, ⟨1, 0⟩], none⟩ .preferred = .ok ls ∧
      (ofSolvers fun _ => .learning).labellings ⟨1, [⟨0, 0⟩], none⟩ .preferred = .ok ls' ∧
      (ofSolvers fun _ => .learning).labellings ⟨3, [⟨2, 2⟩, ⟨0, 1⟩, ⟨1, 0⟩], none⟩ .preferred =
        .ok us ∧
      us.Nodup ∧ us.Perm ((ls ×ˢ ls').map fun q => q.1 ++ q.2) ∧
        us.length = ls.length * ls'.length :=
  labellings_sum (by decide) (by decide) ⟨rfl, fun _ => List.Perm.mem_iff (by decide)⟩
    (fun _ => .learning) (fun _ => .learning) (fun _ => .learning) .preferred

end Engine

end Dialectic
