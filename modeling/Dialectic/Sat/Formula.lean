import Dialectic.Sat.Clause

/-!
# Formulas

A formula is a list of clauses together with a counter from which it hands out fresh variables.
-/

namespace Dialectic.Sat

/-- A list of clauses that allocates its own variables. -/
structure Formula where
  /-- The clauses, in the order in which they were added. -/
  clauses : List Clause := []
  /-- The number up to which variables are taken. -/
  top : Int := 0
  /-- The largest number that was a variable of a clause or the value of the counter. -/
  varCount : Nat := 0
  deriving DecidableEq, Repr

/-- Why a clause is refused. -/
inductive ClauseError where
  /-- A clause without literals can never hold. -/
  | empty
  /-- Zero is no literal. -/
  | zero
  deriving DecidableEq, Repr

/-- What the error says. -/
def ClauseError.message : ClauseError → String
  | .empty => "Empty clause is not allowed (would make the formula UNSAT)."
  | .zero => "Literal 0 is not allowed in DIMACS."

namespace Formula

/-- The formula of some clauses, with the counter at the given number or, if that is larger, at the
largest variable that occurs. -/
def ofClauses (clauses : List Clause) (top : Int) : Formula :=
  ⟨clauses, max top (maxVar clauses), maxVar clauses⟩

/-- The number of clauses. -/
def size (f : Formula) : Nat := f.clauses.length

/-- Fresh variables, and the formula whose counter has moved past them; a negative number gives none
and moves the counter down. -/
def newVariables (f : Formula) (n : Int) : List Int × Formula :=
  ((List.range n.toNat).map fun i : Nat => f.top + 1 + (i : Int),
    { f with top := f.top + n, varCount := max f.varCount (f.top + n).toNat })

/-- The formula with more clauses at the end. -/
def pushAll (f : Formula) (cs : List Clause) : Formula :=
  { f with clauses := f.clauses ++ cs, varCount := max f.varCount (maxVar cs) }

/-- The formula with one more clause, which must have literals and none that is zero. -/
def addClause (f : Formula) (c : Clause) : Except ClauseError Formula :=
  if c = [] then .error .empty
  else if 0 ∈ c then .error .zero
  else .ok (f.pushAll [c])

/-- A copy, which has the clauses and the counter. -/
def copy (f : Formula) : Formula := ofClauses f.clauses f.top

@[simp] theorem clauses_ofClauses (cs : List Clause) (top : Int) :
    (ofClauses cs top).clauses = cs := rfl

@[simp] theorem clauses_newVariables (f : Formula) (n : Int) :
    (f.newVariables n).2.clauses = f.clauses := rfl

@[simp] theorem top_newVariables (f : Formula) (n : Int) :
    (f.newVariables n).2.top = f.top + n := rfl

@[simp] theorem clauses_pushAll (f : Formula) (cs : List Clause) :
    (f.pushAll cs).clauses = f.clauses ++ cs := rfl

@[simp] theorem top_pushAll (f : Formula) (cs : List Clause) : (f.pushAll cs).top = f.top := rfl

@[simp] theorem clauses_copy (f : Formula) : f.copy.clauses = f.clauses := rfl

/-- A clause is added exactly if it has literals and none that is zero. -/
theorem addClause_eq_ok_iff {f g : Formula} {c : Clause} :
    f.addClause c = .ok g ↔ c ≠ [] ∧ 0 ∉ c ∧ g = f.pushAll [c] := by
  unfold addClause
  split
  · simp_all
  · split <;> simp_all [eq_comm]

end Formula

end Dialectic.Sat
