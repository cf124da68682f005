import Dialectic.Sat.Solver

/-!
# All models

All models of a list of clauses are found one after the other: once a model is found, a clause is
added that excludes it and nothing else. Every step leaves one model fewer
(`length_models_block_lt`), whatever model the solver answers with, so the search ends.
-/

namespace Dialectic.Sat

/-! ## Excluding a model -/

/-- The clause that a model, among the total ones, alone does not satisfy. -/
def block (m : Model) : Clause := m.map (- ·)

/-- A total model does not satisfy the clause that excludes it. -/
theorem IsTotal.not_holds_block {k : Nat} {m : Model} (h : IsTotal k m) :
    Clause.holds m (block m) = false := by
  rw [Bool.eq_false_iff]
  intro hh
  obtain ⟨l, hl, hm⟩ := Clause.holds_iff.1 hh
  obtain ⟨x, hx, rfl⟩ := List.mem_map.1 hl
  exact h.neg_not_mem hx hm

/-- Excluding a model adds no variable. -/
theorem IsTotal.maxVar_block_le {k : Nat} {m : Model} (h : IsTotal k m) :
    Clause.maxVar (block m) ≤ k := by
  apply Clause.maxVar_le
  intro l hl
  obtain ⟨x, hx, rfl⟩ := List.mem_map.1 hl
  have := h.natAbs_mem hx
  omega

/-- The models that remain are those that satisfy the excluding clause. -/
theorem models_append_of_maxVar_le {cs : List Clause} {c : Clause}
    (h : Clause.maxVar c ≤ maxVar cs) :
    models (cs ++ [c]) = (models cs).filter fun m => Clause.holds m c := by
  have hk : maxVar (cs ++ [c]) = maxVar cs := by
    simp only [maxVar_append, maxVar_cons, maxVar_nil]
    omega
  rw [models, models, hk, List.filter_filter]
  congr 1
  funext m
  simp [satisfies, Bool.and_comm]

/-- Excluding a found model leaves fewer models. -/
theorem length_models_block_lt {σ : Type} (S : Solver σ) {s t : σ} {m : Model}
    (h : S.solve s = (some m, t)) :
    (models (S.given (S.add t (block m)))).length < (models (S.given s)).length := by
  have hm : m ∈ models (S.given s) := S.mem_models_of_solve (by rw [h])
  have ht := (mem_models.1 hm).1
  have hg : S.given t = S.given s := by rw [← S.given_solve s, h]
  rw [S.given_add, hg, models_append_of_maxVar_le ht.maxVar_block_le,
    List.length_filter_lt_length_iff_exists]
  exact ⟨m, hm, by simp [ht.not_holds_block]⟩

/-! ## The search -/

/-- All models of the clauses that a solver has taken, in the order in which it finds them. -/
def allModels {σ : Type} (S : Solver σ) (s : σ) : List Model :=
  match _h : S.solve s with
  | (none, _) => []
  | (some m, t) => if m = [] then [m] else m :: allModels S (S.add t (block m))
termination_by (models (S.given s)).length
decreasing_by exact length_models_block_lt S ‹_›

/-- Without an answer there are no models. -/
theorem allModels_of_none {σ : Type} (S : Solver σ) {s t : σ} (h : S.solve s = (none, t)) :
    allModels S s = [] := by
  rw [allModels]
  split <;> simp_all

/-- A model that is found comes first, and those follow that are found after it. -/
theorem allModels_of_some {σ : Type} (S : Solver σ) {s t : σ} {m : Model}
    (h : S.solve s = (some m, t)) :
    allModels S s = if m = [] then [m] else m :: allModels S (S.add t (block m)) := by
  rw [allModels]
  split <;> simp_all

/-! ## Reading the models -/

/-- Reads every model as soon as it is found; the first that cannot be read ends the search. What
was read before is given, the last one first. -/
def readModelsAfter {σ ε α : Type} (S : Solver σ) (read : Model → Except ε α) (s : σ)
    (before : List α) : Except ε (List α) :=
  match _h : S.solve s with
  | (none, _) => .ok before.reverse
  | (some m, t) =>
    match read m with
    | .error e => .error e
    | .ok a =>
      if m = [] then .ok (a :: before).reverse
      else readModelsAfter S read (S.add t (block m)) (a :: before)
termination_by (models (S.given s)).length
decreasing_by exact length_models_block_lt S ‹_›

/-- What is read off all models of the clauses that a solver has taken, in the order in which it
finds them. -/
def readModels {σ ε α : Type} (S : Solver σ) (read : Model → Except ε α) (s : σ) :
    Except ε (List α) :=
  readModelsAfter S read s []

/-- Without an answer nothing more is read. -/
theorem readModelsAfter_of_none {σ ε α : Type} {S : Solver σ} {read : Model → Except ε α} {s t : σ}
    {before : List α} (h : S.solve s = (none, t)) :
    readModelsAfter S read s before = .ok before.reverse := by
  rw [readModelsAfter]
  split <;> simp_all

/-- A model that is found is read, and those follow that are found after it. -/
theorem readModelsAfter_of_some {σ ε α : Type} {S : Solver σ} {read : Model → Except ε α} {s t : σ}
    {m : Model} {before : List α} (h : S.solve s = (some m, t)) :
    readModelsAfter S read s before = (read m).bind fun a =>
      if m = [] then .ok (a :: before).reverse
        else readModelsAfter S read (S.add t (block m)) (a :: before) := by
  rw [readModelsAfter]
  split
  · simp_all
  · cases hm : read m <;> simp_all [Except.bind]

/-- What was read before comes first. -/
theorem readModelsAfter_eq {σ ε α : Type} (S : Solver σ) (read : Model → Except ε α) (s : σ)
    (before : List α) :
    readModelsAfter S read s before = ((allModels S s).mapM read).map (before.reverse ++ ·) := by
  fun_induction readModelsAfter S read s before with
  | case1 s before t h => simp [allModels_of_none S h, pure, Except.pure, Except.map]
  | case2 s before m t h e hr =>
    rw [allModels_of_some S h]
    split <;> simp [hr, bind, Except.bind, Except.map]
  | case3 s before t a h hr =>
    simp [allModels_of_some S h, hr, bind, Except.bind, Except.map, pure, Except.pure]
  | case4 s before m t h a hr hm ih =>
    rw [ih, allModels_of_some S h, if_neg hm, List.mapM_cons, hr]
    cases (allModels S (S.add t (block m))).mapM read <;>
      simp [bind, Except.bind, Except.map, pure, Except.pure]

/-- Reading the models as they are found gives what reading them all afterwards gives. -/
theorem readModels_eq {σ ε α : Type} (S : Solver σ) (read : Model → Except ε α) (s : σ) :
    readModels S read s = (allModels S s).mapM read := by
  rw [readModels, readModelsAfter_eq]
  cases (allModels S s).mapM read <;> simp [Except.map]

end Dialectic.Sat
