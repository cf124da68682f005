import Dialectic.Encoding
import Dialectic.Proofs.Enumeration
import Dialectic.Proofs.Outcome
import Mathlib.Data.List.Sort

/-!
# Models that describe labellings

Among `n` arguments every argument has one variable for each status. A total model over these
`3 * n` variables describes a labelling if the variable of an argument's status is true exactly when
the argument has that status. Every labelling of `n` arguments is described by exactly one model
(`exists_describes`, `Describes.model_unique`), and reading that model gives the labelling back
(`Describes.decode_eq`).
-/

namespace Dialectic

/-! ## Lists of numbered places -/

/-- The values of a function on `0, …, n - 1`, with their places. -/
theorem zipIdx_map_range {α : Type} (g : Nat → α) (n : Nat) :
    ((List.range n).map g).zipIdx = (List.range n).map fun i => (g i, i) := by
  apply List.ext_getElem (by simp)
  intro i hi hi'
  simp

/-! ## Variables -/

namespace Status

/-- The place of a status among the three. -/
def block : Status → Nat
  | .accepted => 0
  | .rejected => 1
  | .undecided => 2

/-- The variable that says, among `n` arguments, that an argument has a status. -/
def var (n : Nat) (s : Status) (i : Nat) : Nat := s.block * n + i + 1

/-- The variables of a status, in the order of the arguments. -/
def vars (n : Nat) (s : Status) : List Int := (List.range n).map fun i => (s.var n i : Int)

variable {n i j : Nat} {s t : Status}

/-- Different arguments, and different statuses, have different variables. -/
theorem var_inj (hi : i < n) (hj : j < n) : s.var n i = t.var n j ↔ s = t ∧ i = j := by
  cases s <;> cases t <;>
    simp only [var, block, reduceCtorEq, false_and, true_and, iff_false] <;> omega

/-- The variables of a status with the arguments that they belong to. -/
theorem zipIdx_vars (n : Nat) (s : Status) :
    (s.vars n).zipIdx = (List.range n).map fun i => ((s.var n i : Int), i) :=
  zipIdx_map_range _ _

/-- The variable of an argument is found at the number of the argument. -/
theorem read_vars (s : Status) (hi : i < n) :
    Index.read .tuple (s.vars n).toArray (i : Int) = .ok (s.var n i : Int) := by
  rw [Index.read_natCast .tuple (by simpa [vars] using hi)]
  simp [vars]

/-- Variables are positive. -/
theorem one_le_var : 1 ≤ s.var n i := by
  rw [var]
  omega

/-- All of them are among the first `3 * n`. -/
theorem var_le (hi : i < n) : s.var n i ≤ 3 * n := by
  cases s <;> simp only [var, block] <;> omega

/-- Every variable up to `3 * n` says something about an argument. -/
theorem exists_var {v : Nat} (h₁ : 1 ≤ v) (h₂ : v ≤ 3 * n) :
    ∃ (s : Status) (i : Nat), i < n ∧ v = s.var n i := by
  by_cases h : v ≤ n
  · exact ⟨.accepted, v - 1, by omega, by simp only [var, block]; omega⟩
  · by_cases h' : v ≤ 2 * n
    · exact ⟨.rejected, v - n - 1, by omega, by simp only [var, block]; omega⟩
    · exact ⟨.undecided, v - 2 * n - 1, by omega, by simp only [var, block]; omega⟩

end Status

namespace LabelVariables

/-- The variables of `n` arguments that are allocated first. -/
def first (n : Nat) : LabelVariables :=
  ⟨Status.accepted.vars n, Status.rejected.vars n, Status.undecided.vars n⟩

/-- The variables allocated in a new formula, which then has `3 * n` of them. -/
theorem allocate_natCast (n : Nat) :
    allocate {} (n : Int) = (first n, ⟨[], 3 * n, 3 * n⟩) := by
  simp only [allocate, Sat.Formula.newVariables, first, Status.vars, Status.var, Status.block,
    Int.toNat_natCast, Prod.mk.injEq, LabelVariables.mk.injEq, Sat.Formula.mk.injEq]
  refine ⟨⟨?_, ?_, ?_⟩, trivial, ?_, ?_⟩
  · apply List.map_congr_left
    intro i _
    push_cast
    omega
  · apply List.map_congr_left
    intro i _
    push_cast
    omega
  · apply List.map_congr_left
    intro i _
    push_cast
    omega
  · omega
  · omega

end LabelVariables

/-! ## Descriptions -/

/-- A total model in which the variables of `n` arguments say what a labelling does. -/
structure Describes (n : Nat) (m : Sat.Model) (l : Labelling) : Prop where
  /-- The model decides the variables of the arguments and no others. -/
  total : Sat.IsTotal (3 * n) m
  /-- The labelling has `n` arguments. -/
  length_eq : l.length = n
  /-- The variable of a status is true exactly if the argument has that status. -/
  mem_iff : ∀ i < n, ∀ s : Status, (s.var n i : Int) ∈ m ↔ l[i]? = some s

/-- Whichever variables shall be true, some total model makes exactly those true. -/
theorem Sat.exists_isTotal (k : Nat) (p : Nat → Prop) :
    ∃ m, Sat.IsTotal k m ∧ ∀ v, 1 ≤ v → v ≤ k → ((v : Int) ∈ m ↔ p v) := by
  classical
  refine ⟨(List.range' 1 k).map fun v : Nat => if p v then (v : Int) else -(v : Int), ?_, ?_⟩
  · unfold Sat.IsTotal
    rw [List.map_map]
    conv => rhs; rw [← List.map_id (List.range' 1 k)]
    apply List.map_congr_left
    intro v _
    simp only [Function.comp, id]
    split <;> simp
  · intro v h₁ hk
    rw [List.mem_map]
    constructor
    · rintro ⟨w, hw, hv⟩
      rw [List.mem_range'_1] at hw
      split at hv
      · rename_i hp
        have : w = v := by omega
        exact this ▸ hp
      · omega
    · intro hp
      exact ⟨v, by rw [List.mem_range'_1]; omega, by rw [if_pos hp]⟩

/-- Every labelling is described by a model. -/
theorem exists_describes {n : Nat} {l : Labelling} (hl : l.length = n) : ∃ m, Describes n m l := by
  obtain ⟨m, hm, hv⟩ := Sat.exists_isTotal (3 * n) fun v =>
    ∃ (s : Status) (i : Nat), i < n ∧ v = s.var n i ∧ l[i]? = some s
  refine ⟨m, hm, hl, fun i hi s => ?_⟩
  rw [hv _ Status.one_le_var (Status.var_le hi)]
  constructor
  · rintro ⟨t, j, hj, hst, ht⟩
    obtain ⟨rfl, rfl⟩ := (Status.var_inj hi hj).1 hst
    exact ht
  · intro hs
    exact ⟨s, i, hi, rfl, hs⟩

namespace Describes

variable {n : Nat} {m m' : Sat.Model} {l l' : Labelling}

/-- A labelling is described by one model only. -/
theorem model_unique (h : Describes n m l) (h' : Describes n m' l) : m = m' := by
  refine h.total.eq_of_subset h'.total fun x hx => ?_
  have hk := h.total.natAbs_mem hx
  obtain ⟨s, i, hi, hv⟩ := Status.exists_var hk.1 hk.2
  have hiff : (x.natAbs : Int) ∈ m ↔ (x.natAbs : Int) ∈ m' := by
    rw [hv, h.mem_iff i hi s, h'.mem_iff i hi s]
  rcases Int.natAbs_eq x with hp | hp
  · rw [hp] at hx ⊢
    exact hiff.1 hx
  · rw [hp] at hx ⊢
    have h₀ : (x.natAbs : Int) ≠ 0 := by omega
    rw [h'.total.neg_mem_iff h₀ (by omega), ← hiff, ← h.total.neg_mem_iff h₀ (by omega)]
    exact hx

/-- The negation of a variable holds exactly if the argument has another status. -/
theorem neg_mem_iff (h : Describes n m l) {i : Nat} (hi : i < n) (s : Status) :
    -(s.var n i : Int) ∈ m ↔ l[i]? ≠ some s := by
  have h₁ := Status.one_le_var (n := n) (i := i) (s := s)
  rw [h.total.neg_mem_iff (by omega) (by simpa using Status.var_le hi), h.mem_iff i hi]

/-! ## Reading -/

/-- The variable of a status is among the true ones exactly if the argument has that status. -/
theorem mem_trueVariables (h : Describes n m l) {i : Nat} (hi : i < n) (s : Status) :
    (s.var n i : Int) ∈ trueVariables m ↔ l[i]? = some s := by
  have h₁ := Status.one_le_var (n := n) (i := i) (s := s)
  rw [Dialectic.mem_trueVariables, h.mem_iff i hi]
  exact and_iff_right (by omega)

/-- A described argument has a status. -/
theorem exists_status (h : Describes n m l) {i : Nat} (hi : i < n) : ∃ s, l[i]? = some s :=
  ⟨_, List.getElem?_eq_getElem (h.length_eq ▸ hi)⟩

/-- **Reading.** The labelling is read off the model that describes it. -/
theorem decode_eq (h : Describes n m l) : (LabelVariables.first n).decode m = .ok l := by
  have hr : ∀ p ∈ (List.range n).map fun i => ((Status.accepted.var n i : Int), i),
      decodeAt (trueVariables m) (Status.rejected.vars n).toArray p.2 p.1 =
        .ok (l[p.2]?.getD .undecided) := by
    intro p hp
    obtain ⟨i, hi, rfl⟩ := List.mem_map.1 hp
    rw [List.mem_range] at hi
    have hread := Status.rejected.read_vars hi
    obtain ⟨s, hs⟩ := h.exists_status hi
    have ha := h.mem_trueVariables hi .accepted
    have hr := h.mem_trueVariables hi .rejected
    rw [hs] at ha hr
    unfold decodeAt
    cases s <;> simp [hread, ha, hr, hs, bind, Except.bind, pure, Except.pure]
  simp only [LabelVariables.decode, LabelVariables.first]
  rw [Status.zipIdx_vars, mapM_eq_ok hr, List.map_map]
  congr 1
  apply List.ext_getElem (by simp [h.length_eq])
  intro i hi hi'
  simp [hi']

/-- The accepted arguments are read off the model that describes a labelling. -/
theorem accepted_eq (h : Describes n m l) : (LabelVariables.first n).accepted m = l.accepted := by
  have ha : (LabelVariables.first n).accepted m =
      (List.range n).filter fun i =>
        decide ((Status.accepted.var n i : Int) ∈ trueVariables m) := by
    simp only [LabelVariables.accepted, LabelVariables.first, Status.zipIdx_vars, List.filter_map,
      List.map_map]
    simp [Function.comp_def]
  rw [ha]
  apply (List.pairwise_lt_range.filter _).eq_of_mem_iff (l.indices_pairwise_lt .accepted)
  intro i
  rw [List.mem_filter, List.mem_range, decide_eq_true_iff, Labelling.mem_indices]
  constructor
  · rintro ⟨hi, hs⟩
    exact (h.mem_trueVariables hi _).1 hs
  · intro hs
    have hi : i < n := h.length_eq ▸ (List.getElem?_eq_some_iff.1 hs).1
    exact ⟨hi, (h.mem_trueVariables hi _).2 hs⟩

end Describes

end Dialectic
