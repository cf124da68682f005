import Dialectic.Semantics.Basic

/-!
# The table of attackers

In a framework whose attacks stay among its arguments, the table of attackers can be made, and its
row for an argument holds the attackers of that argument (`WellFormed.attackerIndex_eq`). The
attackers are natural numbers below the number of arguments, so they are also listed as such
(`attackerNumbers`).
-/

namespace Dialectic.Framework

/-! ## Attacks of a well-formed framework -/

variable {f : Framework} {n : Nat}

/-- The size of a well-formed framework is a natural number. -/
theorem WellFormed.exists_size_eq (hf : f.WellFormed) : ∃ n : Nat, f.size = n :=
  Int.eq_ofNat_of_zero_le hf.1

/-- Both ends of an attack of a well-formed framework are arguments. -/
theorem WellFormed.isWithin (hf : f.WellFormed) {a : Attack} (ha : a ∈ f.attacks) :
    (0 ≤ a.origin ∧ a.origin < f.size) ∧ 0 ≤ a.target ∧ a.target < f.size :=
  Attack.isWithin_iff.1 (hf.2 a ha)

/-- What attacks and what is attacked is an argument. -/
theorem WellFormed.lt_of_attacks (hf : f.WellFormed) (hn : f.size = n) {i j : Nat}
    (h : f.Attacks i j) : i < n ∧ j < n := by
  have := hf.isWithin h
  simp only at this
  omega

/-- The attackers of an argument as natural numbers. -/
def attackerNumbers (f : Framework) (i : Nat) : List Nat := (f.attackersOf i).map Int.toNat

/-- The listed attackers are what attacks the argument. -/
theorem WellFormed.mem_attackerNumbers (hf : f.WellFormed) {i j : Nat} :
    j ∈ f.attackerNumbers i ↔ f.Attacks j i := by
  rw [attackerNumbers, List.mem_map]
  constructor
  · rintro ⟨x, hx, rfl⟩
    rw [mem_attackersOf] at hx
    have h := (hf.isWithin hx).1.1
    rw [Attacks, Int.toNat_of_nonneg h]
    exact hx
  · intro h
    exact ⟨j, mem_attackersOf.2 h, rfl⟩

/-- No attacker is lost by taking it for a natural number. -/
theorem WellFormed.attackersOf_eq (hf : f.WellFormed) (i : Nat) :
    f.attackersOf i = (f.attackerNumbers i).map fun j : Nat => (j : Int) := by
  rw [attackerNumbers, List.map_map]
  conv => lhs; rw [← List.map_id (f.attackersOf i)]
  apply List.map_congr_left
  intro x hx
  rw [mem_attackersOf] at hx
  exact (Int.toNat_of_nonneg (hf.isWithin hx).1.1).symm

/-! ## Filling the table -/

/-- Entering attacks one after the other appends to every row the origins of the attacks on it. -/
theorem foldlM_enter {as : List Attack} {rows : Array (Array Int)}
    (h : ∀ a ∈ as, 0 ≤ a.target ∧ a.target < rows.size) :
    ∃ rows', as.foldlM enter rows = .ok rows' ∧ rows'.size = rows.size ∧
      ∀ p : Nat, rows'[p]? = rows[p]?.map fun r =>
        r ++ ((as.filter fun a => a.target = (p : Int)).map (·.origin)).toArray := by
  induction as generalizing rows with
  | nil => exact ⟨rows, rfl, rfl, fun p => by simp⟩
  | cons a as ih =>
    obtain ⟨h₀, h₁⟩ := h a (by simp)
    obtain ⟨t, ht⟩ := Int.eq_ofNat_of_zero_le h₀
    have he : enter rows a = .ok (rows.modify t (·.push a.origin)) := by
      rw [enter, ht, Index.place_natCast .list (by omega)]
      rfl
    have hrest : ∀ b ∈ as, 0 ≤ b.target ∧ b.target < (rows.modify t (·.push a.origin)).size := by
      intro b hb
      rw [Array.size_modify]
      exact h b (List.mem_cons_of_mem _ hb)
    obtain ⟨rows', hr, hs, hp⟩ := ih hrest
    refine ⟨rows', ?_, by rw [hs, Array.size_modify], fun p => ?_⟩
    · rw [List.foldlM_cons, he]
      exact hr
    · rw [hp, Array.getElem?_modify, List.filter_cons, ht]
      by_cases htp : t = p
      · subst htp
        cases rows[t]? <;> simp
      · have htp' : (t : Int) ≠ p := by omega
        simp [htp, htp']

/-- **The table of attackers.** If every attacked number is that of an argument, the row of an
argument lists its attackers. -/
theorem attackerIndex_eq (hn : f.size = n) (h : ∀ a ∈ f.attacks, 0 ≤ a.target ∧ a.target < n) :
    f.attackerIndex = .ok ((List.range n).map fun i : Nat => f.attackersOf i) := by
  have hempty : ∀ a ∈ f.attacks, 0 ≤ a.target ∧
      a.target < (Array.replicate n (#[] : Array Int)).size := by
    simpa using h
  obtain ⟨rows, hr, hs, hp⟩ := foldlM_enter hempty
  rw [Array.size_replicate] at hs
  rw [attackerIndex, hn, Int.toNat_natCast, hr]
  simp only [Except.map]
  congr 1
  apply List.ext_getElem?
  intro i
  rw [Array.getElem?_toList, Array.getElem?_map, hp, Array.getElem?_replicate, List.getElem?_map]
  by_cases hi : i < n
  · rw [if_pos hi, List.getElem?_range hi]
    simp [attackersOf]
  · rw [if_neg hi, List.getElem?_eq_none (by rw [List.length_range]; omega)]
    rfl

/-- The attacks of a well-formed framework are on arguments. -/
theorem WellFormed.attackerIndex_eq (hf : f.WellFormed) (hn : f.size = n) :
    f.attackerIndex = .ok ((List.range n).map fun i : Nat => f.attackersOf i) :=
  Framework.attackerIndex_eq hn fun _ ha => hn ▸ (hf.isWithin ha).2

end Dialectic.Framework
