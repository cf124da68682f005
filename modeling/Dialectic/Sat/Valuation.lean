import Dialectic.Sat.Clause

/-!
# Partial valuations

A valuation decides some variables; under it a literal holds, fails, or is undecided. Main
statement: if every clause has a literal that holds, the total model in which all undecided
variables are false makes them true (`satisfies_toModel`).
-/

namespace Dialectic.Sat

/-- Sets a place of an array, which is made longer if need be. -/
def setAt {α : Type} (xs : Array α) (fill : α) (i : Nat) (x : α) : Array α :=
  if h : i < xs.size then xs.set i x h else (xs.rightpad i fill).push x

/-- What a valuation says about a literal. -/
inductive Truth where
  /-- The literal holds. -/
  | holds
  /-- The negation of the literal holds, or it is zero and no literal. -/
  | fails
  /-- The variable is undecided. -/
  | unknown
  deriving DecidableEq, Repr

/-- A valuation has, at the place of a variable, the literal of it that holds, or zero if it is
undecided, as are all variables beyond the end. -/
structure Valuation where
  /-- The literals that hold. -/
  literals : Array Int := #[]

namespace Valuation

/-! ## Literals -/

/-- The literal of a variable that holds, or zero. -/
def entry (a : Valuation) (v : Nat) : Int := a.literals.getD v 0

/-- What the valuation says about a literal. -/
def truth (a : Valuation) (l : Int) : Truth :=
  let x := a.entry l.natAbs
  if x = 0 then if l = 0 then .fails else .unknown
  else if x = l then .holds
  else .fails

/-- The valuation under which a literal holds. -/
def assign (a : Valuation) (l : Int) : Valuation := ⟨setAt a.literals 0 l.natAbs l⟩

/-- The valuation that leaves the variable of a literal undecided. -/
def free (a : Valuation) (l : Int) : Valuation := ⟨a.literals.setIfInBounds l.natAbs 0⟩

/-- Nothing is decided at first. -/
example (l : Int) : (Valuation.truth {} l) = if l = 0 then .fails else .unknown := by
  simp [truth, entry]

/-- A literal that holds is the entry of its variable, which is not zero. -/
theorem entry_of_truth_eq_holds {a : Valuation} {l : Int} (h : a.truth l = .holds) :
    a.entry l.natAbs = l ∧ l ≠ 0 := by
  unfold truth at h
  dsimp only at h
  split at h
  · split at h <;> simp at h
  · split at h
    · rename_i h₀ hl
      exact ⟨hl, hl ▸ h₀⟩
    · simp at h

/-! ## Clauses -/

/-- A clause holds under a valuation if a literal of it does. -/
def Hits (a : Valuation) (c : Clause) : Prop := ∃ l ∈ c, a.truth l = .holds

/-- Whether one of the first literals of a clause holds. -/
def hitsBelow (a : Valuation) (c : Array Int) : Nat → Bool
  | 0 => false
  | n + 1 => a.truth (c.getD n 0) == .holds || a.hitsBelow c n

/-- The test of a clause finds a literal that is true. -/
theorem hits_of_hitsBelow {a : Valuation} {c : Array Int} {n : Nat} (h : a.hitsBelow c n) :
    a.Hits c.toList := by
  induction n with
  | zero => simp [hitsBelow] at h
  | succ n ih =>
    simp only [hitsBelow, Bool.or_eq_true, beq_iff_eq] at h
    rcases h with h | h
    · have h₀ := (entry_of_truth_eq_holds h).2
      by_cases hn : n < c.size
      · refine ⟨c.getD n 0, ?_, h⟩
        simp [Array.getD, hn]
      · simp [Array.getD, hn] at h₀
    · exact ih h

/-- Whether each of the first of some clauses has a literal that holds. -/
def hitsAllBelow (a : Valuation) (cs : Array (Array Int)) : Nat → Bool
  | 0 => true
  | n + 1 => a.hitsBelow (cs.getD n #[]) (cs.getD n #[]).size && a.hitsAllBelow cs n

/-- Whether each of some clauses has a literal that holds. -/
def hitsAll (a : Valuation) (cs : Array (Array Int)) : Bool := a.hitsAllBelow cs cs.size

/-- The test of all clauses does so for each. -/
theorem hits_of_hitsAllBelow {a : Valuation} {cs : Array (Array Int)} {n i : Nat}
    (h : a.hitsAllBelow cs n) (hi : i < n) (hc : i < cs.size) : a.Hits cs[i].toList := by
  induction n with
  | zero => omega
  | succ n ih =>
    simp only [hitsAllBelow, Bool.and_eq_true] at h
    by_cases hin : i = n
    · subst hin
      have := hits_of_hitsBelow h.1
      simpa [Array.getD, hc] using this
    · exact ih h.2 (by omega)

/-- If all clauses are found to hold, each does. -/
theorem hits_of_hitsAll {a : Valuation} {cs : Array (Array Int)} (h : a.hitsAll cs) {c : Array Int}
    (hc : c ∈ cs) : a.Hits c.toList := by
  obtain ⟨i, hi, rfl⟩ := Array.getElem_of_mem hc
  exact hits_of_hitsAllBelow h hi hi

/-! ## Total models -/

/-- The total model over `1, …, k` in which a variable is true exactly if the valuation makes it
so. -/
def toModel (a : Valuation) (k : Nat) : Model :=
  (List.range' 1 k).map fun v : Nat => if a.entry v = v then (v : Int) else -(v : Int)

/-- A valuation gives a model with one literal of each variable. -/
theorem isTotal_toModel (a : Valuation) (k : Nat) : IsTotal k (a.toModel k) := by
  unfold IsTotal toModel
  rw [List.map_map]
  conv => rhs; rw [← List.map_id (List.range' 1 k)]
  apply List.map_congr_left
  intro v _
  simp only [Function.comp, id]
  split <;> simp

/-- The total model keeps the literals over the variables `1, …, k` that hold. -/
theorem mem_toModel {a : Valuation} {k : Nat} {l : Int} (hl : a.truth l = .holds)
    (hk : l.natAbs ≤ k) : l ∈ a.toModel k := by
  obtain ⟨he, h₀⟩ := entry_of_truth_eq_holds hl
  rw [toModel, List.mem_map]
  refine ⟨l.natAbs, by rw [List.mem_range'_1]; omega, ?_⟩
  rw [he]
  split <;> omega

/-- If every clause holds, so it does in the total model. -/
theorem satisfies_toModel {a : Valuation} {cs : List Clause} (h : ∀ c ∈ cs, a.Hits c) :
    satisfies (a.toModel (maxVar cs)) cs := by
  rw [satisfies_iff]
  intro c hc
  obtain ⟨l, hl, hh⟩ := h c hc
  exact ⟨l, hl, mem_toModel hh (natAbs_le_maxVar hc hl)⟩

end Valuation

end Dialectic.Sat
