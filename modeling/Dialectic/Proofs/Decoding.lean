import Dialectic.Proofs.Encoding
import Mathlib.Data.Set.Function

/-!
# Models and labellings, one to one

Reading the models of clauses that encode a property of labellings is a bijection onto the
labellings with the property (`Encodes.bijOn_decode`). The encodings of a well-formed framework are
exact (`Encoding.IsExact`): besides, every variable stands for one status of one argument and
occurs, the clauses have no other variables, and none of them is empty. Main statement:
`Encoding.isExact_of_wellFormed`.
-/

namespace Dialectic

open Dialectic.Sat (Clause Model)

variable {n : Nat} {f : Framework}

/-! ## Reading models -/

section

variable {cs : List Clause} {P : Labelling → Prop} {m : Model} {l : Labelling}

/-- The total models of the clauses are the descriptions of the labellings with the property. -/
theorem Encodes.isTotal_and_satisfies_iff (h : Encodes cs n P) :
    Sat.IsTotal (3 * n) m ∧ Sat.satisfies m cs ↔ ∃ l, P l ∧ Describes n m l := by
  rw [← h.mem_models_iff, Sat.mem_models, h.maxVar_eq]

/-- **Reading.** Every labelling with the property is read off exactly one model, and nothing else
is. -/
theorem Encodes.bijOn_decode (h : Encodes cs n P) :
    Set.BijOn (LabelVariables.first n).decode {m | Sat.IsTotal (3 * n) m ∧ Sat.satisfies m cs}
      (Except.ok '' {l | P l}) := by
  refine ⟨fun m hm => ?_, fun m hm m' hm' heq => ?_, ?_⟩
  · obtain ⟨l, hP, hl⟩ := h.isTotal_and_satisfies_iff.1 hm
    exact ⟨l, hP, hl.decode_eq.symm⟩
  · obtain ⟨l, -, hl⟩ := h.isTotal_and_satisfies_iff.1 hm
    obtain ⟨l', -, hl'⟩ := h.isTotal_and_satisfies_iff.1 hm'
    rw [hl.decode_eq, hl'.decode_eq, Except.ok.injEq] at heq
    exact hl.model_unique (heq ▸ hl')
  · rintro _ ⟨l, hP, rfl⟩
    obtain ⟨m, hm⟩ := exists_describes (h.length_eq hP)
    exact ⟨m, h.isTotal_and_satisfies_iff.2 ⟨l, hP, hm⟩, hm.decode_eq⟩

/-- What a model accepts is what the labelling that is read off it accepts. -/
theorem Encodes.accepted_eq (h : Encodes cs n P) (hm : Sat.IsTotal (3 * n) m)
    (hs : Sat.satisfies m cs) (hl : (LabelVariables.first n).decode m = .ok l) :
    (LabelVariables.first n).accepted m = l.accepted := by
  obtain ⟨l', -, hl'⟩ := h.isTotal_and_satisfies_iff.1 ⟨hm, hs⟩
  rw [hl'.decode_eq, Except.ok.injEq] at hl
  rw [← hl, hl'.accepted_eq]

end

/-! ## The variables -/

namespace Status

variable {s t : Status} {x : Int}

/-- The variables of a status are those of the arguments. -/
theorem mem_vars_iff : x ∈ s.vars n ↔ ∃ i < n, (s.var n i : Int) = x := by
  simp [vars]

/-- Different statuses have different variables. -/
theorem disjoint_vars (h : s ≠ t) : (s.vars n).Disjoint (t.vars n) := by
  intro x hs ht
  obtain ⟨i, hi, rfl⟩ := mem_vars_iff.1 hs
  obtain ⟨j, hj, heq⟩ := mem_vars_iff.1 ht
  exact h ((var_inj hi hj).1 (by omega)).1

/-- Together the variables of the three statuses are the first `3 * n`. -/
theorem exists_mem_vars_iff : (∃ s : Status, x ∈ s.vars n) ↔ 1 ≤ x ∧ x ≤ 3 * n := by
  constructor
  · rintro ⟨s, hs⟩
    obtain ⟨i, hi, rfl⟩ := mem_vars_iff.1 hs
    have h₁ := one_le_var (n := n) (i := i) (s := s)
    have h₂ := var_le (s := s) hi
    omega
  · rintro ⟨h₁, h₂⟩
    obtain ⟨s, i, hi, hv⟩ := exists_var (n := n) (v := x.toNat) (by omega) (by omega)
    exact ⟨s, mem_vars_iff.2 ⟨i, hi, by omega⟩⟩

end Status

/-- Every variable of an argument occurs in the clauses of a framework. -/
theorem exists_mem_completeClauses {v : Nat} (h₁ : 1 ≤ v) (h₂ : v ≤ 3 * n) :
    ∃ c ∈ completeClauses n f, (v : Int) ∈ c := by
  obtain ⟨s, i, hi, rfl⟩ := Status.exists_var h₁ h₂
  refine ⟨_, mem_completeClauses hi, ?_⟩
  cases s <;> simp

/-! ## Exact encodings -/

/-- An encoding whose models are, one to one, the labellings of `n` arguments with a property. -/
structure Encoding.IsExact (e : Encoding) (n : Nat) (P : Labelling → Prop) : Prop where
  /-- Reading the models over the variables of the arguments is a bijection onto the labellings. -/
  bijOn : Set.BijOn e.vars.decode {m | Sat.IsTotal (3 * n) m ∧ Sat.satisfies m e.formula.clauses}
    (Except.ok '' {l | P l})
  /-- What a model accepts is what the labelling that is read off it accepts. -/
  accepted_eq : ∀ {m l}, Sat.IsTotal (3 * n) m → Sat.satisfies m e.formula.clauses →
    e.vars.decode m = .ok l → e.vars.accepted m = l.accepted
  /-- Every argument has a variable for each status. -/
  length_eq : e.vars.inn.length = n ∧ e.vars.out.length = n ∧ e.vars.und.length = n
  /-- No variable stands for two statuses. -/
  disjoint : e.vars.inn.Disjoint e.vars.out ∧ e.vars.inn.Disjoint e.vars.und ∧
    e.vars.out.Disjoint e.vars.und
  /-- The variables of the statuses are the first ones. -/
  mem_vars_iff : ∀ x : Int, (x ∈ e.vars.inn ∨ x ∈ e.vars.out ∨ x ∈ e.vars.und) ↔ 1 ≤ x ∧ x ≤ 3 * n
  /-- The clauses have literals, all of them over these variables. -/
  isOver : ∀ c ∈ e.formula.clauses, IsOver n c
  /-- Every variable occurs. -/
  occurs : ∀ v : Nat, 1 ≤ v → v ≤ 3 * n → ∃ c ∈ e.formula.clauses, (v : Int) ∈ c ∨ -(v : Int) ∈ c

/-- Clauses that encode a property and to which those of a framework belong are an exact
encoding. -/
theorem Encodes.isExact {P : Labelling → Prop} {formula : Sat.Formula}
    (h : Encodes formula.clauses n P) (hover : ∀ c ∈ formula.clauses, IsOver n c)
    (hsub : completeClauses n f ⊆ formula.clauses) : Encoding.IsExact ⟨formula, .first n⟩ n P := by
  constructor
  · exact h.bijOn_decode
  · exact h.accepted_eq
  · simp [LabelVariables.first, Status.vars]
  · exact ⟨Status.disjoint_vars (by decide), Status.disjoint_vars (by decide),
      Status.disjoint_vars (by decide)⟩
  · intro x
    rw [← Status.exists_mem_vars_iff]
    constructor
    · rintro (hx | hx | hx)
      · exact ⟨_, hx⟩
      · exact ⟨_, hx⟩
      · exact ⟨_, hx⟩
    · rintro ⟨s, hx⟩
      cases s with
      | accepted => exact .inl hx
      | rejected => exact .inr (.inl hx)
      | undecided => exact .inr (.inr hx)
  · exact hover
  · intro v h₁ h₂
    obtain ⟨c, hc, hv⟩ := exists_mem_completeClauses (f := f) h₁ h₂
    exact ⟨c, hsub hc, .inl hv⟩

/-- **Exact encodings.** A well-formed framework has an encoding of its complete labellings and one
of its stable labellings, and both are exact. -/
theorem Encoding.isExact_of_wellFormed (hf : f.WellFormed) (hn : f.size = n) :
    ∃ e e', Encoding.complete f = .ok e ∧ Encoding.stable f = .ok e' ∧
      e.IsExact n f.IsComplete ∧ e'.IsExact n f.IsStable := by
  refine ⟨_, _, complete_eq hf hn, stable_eq hf hn, ?_, ?_⟩
  · exact Encodes.isExact (encodes_complete hf hn) (isOver_of_mem_completeClauses hf hn)
      (List.Subset.refl _)
  · refine Encodes.isExact (f := f) (encodes_stable hf hn) ?_ (List.subset_append_left _ _)
    exact List.forall_mem_append.2
      ⟨isOver_of_mem_completeClauses hf hn, isOver_of_mem_decidedClauses⟩

/-- Three arguments of which one attacks itself and another is attacked twice over by a third. -/
theorem Encoding.isExact_of_wellFormed_self_attack :
    ∃ e e', Encoding.complete ⟨3, [⟨0, 0⟩, ⟨1, 2⟩, ⟨1, 2⟩], none⟩ = .ok e ∧
      Encoding.stable ⟨3, [⟨0, 0⟩, ⟨1, 2⟩, ⟨1, 2⟩], none⟩ = .ok e' ∧
      e.IsExact 3 (Framework.IsComplete ⟨3, [⟨0, 0⟩, ⟨1, 2⟩, ⟨1, 2⟩], none⟩) ∧
      e'.IsExact 3 (Framework.IsStable ⟨3, [⟨0, 0⟩, ⟨1, 2⟩, ⟨1, 2⟩], none⟩) :=
  Encoding.isExact_of_wellFormed (by decide) rfl

end Dialectic
