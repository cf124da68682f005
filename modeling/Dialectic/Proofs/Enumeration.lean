import Dialectic.Sat.Enumerate
import Mathlib.Data.List.Nodup
import Mathlib.Data.List.ProdSigma

/-!
# Every model once

A list enumerates a property if it has exactly the elements with that property, each of them once.
Main statement: whatever models a solver answers with, excluding them one after the other enumerates
the models of the clauses that it has taken (`enumerates_allModels`). A total model is determined by
the literals in it, so the clause that excludes one model holds in all others
(`IsTotal.holds_block_iff`).
-/

namespace Dialectic

/-! ## Lists without repetition -/

/-- A list has exactly the elements with a property, each once. -/
structure Enumerates {α : Type} (p : α → Prop) (xs : List α) : Prop where
  /-- No element is listed twice. -/
  nodup : xs.Nodup
  /-- What is listed is what has the property. -/
  mem_iff : ∀ x, x ∈ xs ↔ p x

namespace Enumerates

variable {α β : Type} {p q : α → Prop} {xs ys : List α}

/-- Two enumerations of one property differ in their order only. -/
theorem perm (hx : Enumerates p xs) (hy : Enumerates p ys) : xs.Perm ys := by
  rw [List.perm_ext_iff_of_nodup hx.nodup hy.nodup]
  intro x
  rw [hx.mem_iff, hy.mem_iff]

/-- A property that one element alone has is enumerated by that element. -/
theorem eq_singleton {a : α} (h : Enumerates p xs) (hp : ∀ x, p x ↔ x = a) : xs = [a] := by
  have ha : Enumerates p [a] := ⟨List.nodup_singleton a, fun x => by rw [List.mem_singleton, hp]⟩
  exact List.perm_singleton.1 (h.perm ha)

/-- What is enumerated may be put in other words. -/
theorem congr (h : Enumerates p xs) (hpq : ∀ x, p x ↔ q x) : Enumerates q xs :=
  ⟨h.nodup, fun x => (h.mem_iff x).trans (hpq x)⟩

/-- Leaving elements out enumerates the rest. -/
theorem filter (h : Enumerates p xs) (keep : α → Bool) :
    Enumerates (fun x => p x ∧ keep x) (xs.filter keep) := by
  refine ⟨h.nodup.filter keep, fun x => ?_⟩
  rw [List.mem_filter, h.mem_iff]

/-- A function that keeps the elements with a property apart enumerates its values at them. -/
theorem map (h : Enumerates p xs) {g : α → β} (hg : ∀ x y, p x → p y → g x = g y → x = y) :
    Enumerates (fun y => ∃ x, p x ∧ g x = y) (xs.map g) := by
  constructor
  · refine h.nodup.map_on fun x hx y hy hxy => ?_
    exact hg x y ((h.mem_iff x).1 hx) ((h.mem_iff y).1 hy) hxy
  · intro y
    rw [List.mem_map]
    constructor
    · rintro ⟨x, hx, rfl⟩
      exact ⟨x, (h.mem_iff x).1 hx, rfl⟩
    · rintro ⟨x, hx, rfl⟩
      exact ⟨x, (h.mem_iff x).2 hx, rfl⟩

/-- Pairs of what two lists enumerate are enumerated. -/
theorem product {q : β → Prop} {ys : List β} (h : Enumerates p xs) (h' : Enumerates q ys) :
    Enumerates (fun z : α × β => p z.1 ∧ q z.2) (xs ×ˢ ys) := by
  refine ⟨h.nodup.product h'.nodup, fun z => ?_⟩
  rw [List.mem_product, h.mem_iff, h'.mem_iff]

end Enumerates

namespace Sat

/-! ## Total models -/

namespace IsTotal

variable {k : Nat} {m m' : Model}

/-- A total model has as many literals as there are variables. -/
theorem length_eq (h : IsTotal k m) : m.length = k := by
  have := congrArg List.length h
  simpa using this

/-- A total model whose literals all hold in another is the same. -/
theorem eq_of_subset (h : IsTotal k m) (h' : IsTotal k m') (hs : ∀ l ∈ m, l ∈ m') : m = m' := by
  apply List.ext_getElem (by rw [h.length_eq, h'.length_eq])
  intro i hi hi'
  have hl : m[i] ∈ m' := hs _ (List.getElem_mem hi)
  have hv : (m.map Int.natAbs)[i]? = (m'.map Int.natAbs)[i]? := by rw [h, h']
  rw [List.getElem?_map, List.getElem?_map, List.getElem?_eq_getElem hi,
    List.getElem?_eq_getElem hi'] at hv
  exact h'.eq_of_natAbs_eq hl (List.getElem_mem hi') (Option.some.inj hv)

/-- Of a variable and its negation a total model has exactly one. -/
theorem neg_mem_iff (h : IsTotal k m) {l : Int} (h₀ : l ≠ 0) (hk : l.natAbs ≤ k) :
    -l ∈ m ↔ l ∉ m := by
  constructor
  · intro hn hl
    exact h.neg_not_mem hl hn
  · intro hl
    exact (h.mem_or_neg_mem h₀ hk).resolve_left hl

/-- The clause that excludes a total model holds in all others. -/
theorem holds_block_iff (h : IsTotal k m) (h' : IsTotal k m') :
    Clause.holds m' (block m) ↔ m' ≠ m := by
  constructor
  · rintro hh rfl
    rw [h.not_holds_block] at hh
    exact absurd hh (by simp)
  · intro hne
    by_contra hh
    refine hne (h.eq_of_subset h' fun l hl => ?_).symm
    rw [Clause.holds_iff] at hh
    have hn : -l ∉ m' := fun hn => hh ⟨-l, List.mem_map_of_mem hl, hn⟩
    exact (h'.mem_or_neg_mem (h.ne_zero hl) (h.natAbs_mem hl).2).resolve_right hn

end IsTotal

/-! ## The search for all models -/

/-- Excluding a model leaves exactly the other models. -/
theorem mem_models_append_block {cs : List Clause} {m m' : Model} (h : m ∈ models cs) :
    m' ∈ models (cs ++ [block m]) ↔ m' ∈ models cs ∧ m' ≠ m := by
  have hm := (mem_models.1 h).1
  rw [models_append_of_maxVar_le hm.maxVar_block_le, List.mem_filter]
  constructor
  · rintro ⟨hm', hh⟩
    exact ⟨hm', (hm.holds_block_iff (mem_models.1 hm').1).1 hh⟩
  · rintro ⟨hm', hne⟩
    exact ⟨hm', (hm.holds_block_iff (mem_models.1 hm').1).2 hne⟩

/-- **Every model once.** The search enumerates the models of the clauses that the solver has
taken. -/
theorem enumerates_allModels {σ : Type} (S : Solver σ) (s : σ) :
    Enumerates (· ∈ models (S.given s)) (allModels S s) := by
  fun_induction allModels S s with
  | case1 s t h =>
    have h₀ : models (S.given s) = [] := S.models_eq_nil_of_solve (by rw [h])
    rw [h₀]
    exact ⟨List.nodup_nil, fun x => Iff.rfl⟩
  | case2 s t h =>
    -- A model without literals is the only one over no variables.
    have hm : [] ∈ models (S.given s) := S.mem_models_of_solve (by rw [h])
    refine ⟨List.nodup_singleton _, fun m' => ?_⟩
    rw [List.mem_singleton]
    constructor
    · rintro rfl
      exact hm
    · intro hm'
      exact ((mem_models.1 hm).1.eq_of_subset (mem_models.1 hm').1 (by simp)).symm
  | case3 s m t h hne ih =>
    have hm : m ∈ models (S.given s) := S.mem_models_of_solve (by rw [h])
    have hg : S.given (S.add t (block m)) = S.given s ++ [block m] := by
      rw [S.given_add, ← S.given_solve s, h]
    rw [hg] at ih
    constructor
    · rw [List.nodup_cons, ih.mem_iff, mem_models_append_block hm]
      exact ⟨fun hmm => hmm.2 rfl, ih.nodup⟩
    · intro m'
      rw [List.mem_cons, ih.mem_iff, mem_models_append_block hm]
      constructor
      · rintro (rfl | ⟨hm', _⟩)
        · exact hm
        · exact hm'
      · intro hm'
        by_cases he : m' = m
        · exact Or.inl he
        · exact Or.inr ⟨hm', he⟩

end Sat

end Dialectic
