import Dialectic.Sat.Learner

/-!
# Solvers

A solver takes clauses one after the other. Asked, it answers with a total model of the clauses
taken so far, over the variables `1, …, k`, where `k` is the largest variable that occurs, or
reports that there is none. Nothing is said about which model it answers with; `Solver.learning` is
one solver.
-/

namespace Dialectic.Sat

/-- A sound and complete solver, of which `σ` is the type of states. -/
structure Solver (σ : Type) where
  /-- The state before any clause. -/
  start : σ
  /-- Takes a clause. -/
  add : σ → Clause → σ
  /-- Answers with a total model of the clauses taken, or `none`. -/
  solve : σ → Option Model × σ
  /-- The clauses taken. -/
  given : σ → List Clause
  /-- At first no clause is taken. -/
  given_start : given start = []
  /-- A clause that is taken comes last. -/
  given_add : ∀ s c, given (add s c) = given s ++ [c]
  /-- An answer takes no clause. -/
  given_solve : ∀ s, given (solve s).2 = given s
  /-- An answered model is total and makes every clause true. -/
  mem_models_of_solve : ∀ {s m}, (solve s).1 = some m → m ∈ models (given s)
  /-- Without an answer there is no model. -/
  models_eq_nil_of_solve : ∀ {s}, (solve s).1 = none → models (given s) = []

namespace Solver

variable {σ : Type} (S : Solver σ)

/-- Takes clauses one after the other. -/
def addAll (s : σ) (cs : List Clause) : σ := cs.foldl S.add s

@[simp] theorem given_addAll (s : σ) (cs : List Clause) :
    S.given (S.addAll s cs) = S.given s ++ cs := by
  unfold addAll
  induction cs generalizing s with
  | nil => simp
  | cons c cs ih => rw [List.foldl_cons, ih, S.given_add, List.append_assoc, List.singleton_append]

/-- An answered model is total. -/
theorem isTotal_of_solve {s : σ} {m : Model} (h : (S.solve s).1 = some m) :
    IsTotal (maxVar (S.given s)) m := (mem_models.1 (S.mem_models_of_solve h)).1

/-- The solver that learns from refuted clauses. -/
def learning : Solver Learner where
  start := {}
  add := Learner.add
  solve := Learner.solve
  given := Learner.given
  given_start := rfl
  given_add := Learner.given_add
  given_solve := Learner.given_solve
  mem_models_of_solve := Learner.mem_models_of_solve
  models_eq_nil_of_solve := Learner.models_eq_nil_of_solve

end Solver

end Dialectic.Sat
