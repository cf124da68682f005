import Dialectic.Json.Convert
import Dialectic.Sat.Formula
import Dialectic.Sat.Kind
import Dialectic.Sat.Solver

/-!
# Sessions

A session is a solver at work on a formula. A clause that is added in a session goes to the formula
and to the solver, and the session counts how often the solver is asked.
-/

namespace Dialectic.Sat

/-- A solver at work on a formula. -/
structure Session (σ : Type) where
  /-- The solver. -/
  solver : Solver σ
  /-- The state of the solver. -/
  state : σ
  /-- The formula. -/
  formula : Formula
  /-- How the solver takes clauses. -/
  intake : Intake
  /-- The literals with which the next clause begins. -/
  pending : Clause
  /-- Whether the session still has its solver. -/
  isOpen : Bool
  /-- How often the solver was asked. -/
  calls : Nat

/-- Why a step of a session fails. -/
inductive SessionError where
  /-- A literal stands for no integer. -/
  | literal (e : Json.IntegerError)
  /-- The formula refuses the clause. -/
  | clause (e : ClauseError)
  /-- The solver refuses the clause. -/
  | refusal (e : Intake.Refusal)
  /-- The session is closed and can no longer do this. -/
  | closed (operation : String)
  deriving DecidableEq, Repr

/-- What the error says. -/
def SessionError.message : SessionError → String
  | .literal e => e.message
  | .clause e => e.message
  | .refusal e => e.message
  | .closed operation => "'NoneType' object has no attribute '" ++ operation ++ "'"

/-- The formula with a clause whose literals are given as any values. -/
def Formula.addValues (f : Formula) (lits : List Json) : Except SessionError Formula := do
  let c ← (lits.mapM Json.toInteger).mapError .literal
  (f.addClause c).mapError .clause

namespace Session

variable {σ : Type}

/-- The clauses that the solver was given. -/
def given (s : Session σ) : List Clause := s.solver.given s.state

/-- A session of a solver on a formula. -/
def start (solver : Solver σ) (formula : Formula) : Session σ where
  solver := solver
  state := solver.addAll solver.start formula.clauses
  formula := formula
  intake := .whole
  pending := []
  isOpen := true
  calls := 0

/-- Opens a session on the formula that a solver reads, in its own way, in clauses of any values. -/
def openReading (solver : Solver σ) (intake : Intake) (clauses : List (List Json)) :
    Except SessionError (Session σ) := do
  let cs ← (clauses.mapM intake.clauseOf).mapError .refusal
  return { start solver (.ofClauses cs 0) with intake := intake }

/-- Opens a session on a formula, whose clauses the solver reads in its own way. -/
def openOn (solver : Solver σ) (intake : Intake) (formula : Formula) :
    Except SessionError (Session σ) := do
  let s ← openReading solver intake (formula.clauses.map (·.map .int))
  return { s with formula := formula }

/-- Gives a clause to the solver. -/
def push (s : Session σ) (c : Clause) : Session σ := { s with state := s.solver.add s.state c }

/-- Gives a clause of any values to the solver. -/
def give (s : Session σ) (lits : List Json) : Session σ × Except SessionError Unit :=
  if s.isOpen then
    match s.intake.take lits with
    | .refused kept refusal =>
      ({ s with pending := s.pending ++ kept }, .error (.refusal refusal))
    | .taken c complaint =>
      ({ s with pending := [] }.push (s.pending ++ c),
        complaint.elim (.ok ()) fun refusal => .error (.refusal refusal))
  else (s, .error (.closed "add_clause"))

/-- Adds a clause whose literals are given as any values: first to the formula, then to the solver.
If the solver fails, the formula keeps the clause. -/
def add (s : Session σ) (lits : List Json) : Session σ × Except SessionError Unit :=
  match s.formula.addValues lits with
  | .error e => (s, .error e)
  | .ok f => { s with formula := f }.give lits

/-- Adds a clause of integers to the formula and to the solver. -/
def addClause (s : Session σ) (c : Clause) : Except ClauseError (Session σ) :=
  (s.formula.addClause c).map fun f => { s with formula := f }.push c

/-- Asks the solver for a model. -/
def solve (s : Session σ) : Session σ × Except SessionError (Option Model) :=
  let calls := s.calls + 1
  if s.isOpen then
    let (answer, state) := s.solver.solve s.state
    ({ s with state := state, calls := calls }, .ok answer)
  else ({ s with calls := calls }, .error (.closed "solve"))

/-- Gives the solver back. -/
def close (s : Session σ) : Session σ := { s with isOpen := false }

@[simp] theorem given_start (solver : Solver σ) (formula : Formula) :
    (start solver formula).given = formula.clauses := by
  simp [start, given, solver.given_start]

@[simp] theorem formula_start (solver : Solver σ) (formula : Formula) :
    (start solver formula).formula = formula := rfl

@[simp] theorem given_push (s : Session σ) (c : Clause) : (s.push c).given = s.given ++ [c] :=
  s.solver.given_add s.state c

@[simp] theorem given_solve (s : Session σ) : s.solve.1.given = s.given := by
  unfold solve
  dsimp only
  split
  · exact s.solver.given_solve s.state
  · rfl

/-- A clause with literals, none of them zero, is added to the formula and to the solver; the
session stays as it is otherwise. -/
theorem exists_addClause_eq (s : Session σ) {c : Clause} (h : c ≠ []) (h₀ : 0 ∉ c) :
    ∃ t, s.addClause c = .ok t ∧ t.given = s.given ++ [c] ∧ t.isOpen = s.isOpen ∧
      t.calls = s.calls := by
  refine ⟨{ s with formula := s.formula.pushAll [c] }.push c, ?_, given_push _ _, rfl, rfl⟩
  rw [addClause, Formula.addClause_eq_ok_iff.2 ⟨h, h₀, rfl⟩]
  rfl

/-- Such clauses are added one after the other. -/
theorem foldlM_addClause (s : Session σ) {cs : List Clause} (h : ∀ c ∈ cs, c ≠ [] ∧ 0 ∉ c) :
    ∃ t, cs.foldlM addClause s = .ok t ∧ t.given = s.given ++ cs ∧ t.isOpen = s.isOpen ∧
      t.calls = s.calls := by
  induction cs generalizing s with
  | nil => exact ⟨s, rfl, by simp, rfl, rfl⟩
  | cons c cs ih =>
    have hc := h c (by simp)
    obtain ⟨t, ht, htg, hto, htc⟩ := s.exists_addClause_eq hc.1 hc.2
    obtain ⟨u, hu, hug, huo, huc⟩ := ih t fun d hd => h d (List.mem_cons_of_mem _ hd)
    refine ⟨u, ?_, ?_, huo.trans hto, huc.trans htc⟩
    · rw [List.foldlM_cons, ht]
      exact hu
    · rw [hug, htg, List.append_assoc]
      rfl

/-- What a session that is asked answers is what its solver answers, if the session is open. -/
theorem exists_of_solve_eq {s t : Session σ} {answer : Option Model}
    (h : s.solve = (t, .ok answer)) :
    s.isOpen ∧ s.solver.solve s.state = (answer, t.state) ∧ t.solver = s.solver ∧ t.isOpen := by
  unfold Session.solve at h
  dsimp only at h
  split at h
  · obtain ⟨rfl, hanswer⟩ := Prod.mk.inj h
    obtain rfl := Except.ok.inj hanswer
    exact ⟨‹_›, rfl, rfl, ‹_›⟩
  · cases (Prod.mk.inj h).2

/-- An open session answers with a model of the clauses given, or there is none. -/
theorem solve_of_isOpen {s : Session σ} (h : s.isOpen) :
    ∃ t answer, s.solve = (t, .ok answer) ∧ t.given = s.given ∧ t.isOpen ∧ t.calls = s.calls + 1 ∧
      (∀ m, answer = some m → m ∈ models s.given) ∧ (answer = none → models s.given = []) := by
  refine ⟨{ s with state := (s.solver.solve s.state).2, calls := s.calls + 1 },
    (s.solver.solve s.state).1, ?_, s.solver.given_solve s.state, h, rfl, ?_, ?_⟩
  · simp [solve, h]
  · intro m hm
    exact s.solver.mem_models_of_solve hm
  · intro hn
    exact s.solver.models_eq_nil_of_solve hn

end Session

end Dialectic.Sat
