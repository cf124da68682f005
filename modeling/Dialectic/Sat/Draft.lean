import Dialectic.Sat.Allocation
import Dialectic.Sat.Session

/-!
# Drafts of formulas

A draft has the parts of a formula, but its numbers may be any that are compared with integers:
literals and the counter can be floating-point numbers or truth values. Where a formula may come
from anywhere, it is either a formula or only a draft of one, and both are used the same.
-/

namespace Dialectic.Sat

/-! ## Drafts -/

/-- A formula of any numbers. -/
structure Draft where
  /-- The clauses, in the order in which they were added. -/
  clauses : List (List Json) := []
  /-- The number up to which variables are taken. -/
  top : Json := .int 0
  /-- The largest number that was the variable of a clause or the value of the counter. -/
  varCount : Json := .int 0
  deriving Repr

namespace Draft

/-- The greatest of some numbers and one more, the first of those that are equal. -/
def greatest (ns : List Json) (last : Json) : Json :=
  match ns ++ [last] with
  | n :: rest => rest.foldl Json.greater n
  | [] => last

/-- The literals of a clause, and the greatest variable so far. -/
def readClause (varCount clause : Json) : Except Json.Misuse (List Json × Json) := do
  let lits ← clause.items
  let vars ← lits.mapM Json.magnitude
  return (lits, greatest vars varCount)

/-- The draft of some clauses, with the counter at the given number or, if that is larger, at the
largest variable that occurs. What is empty or nothing has no clauses. -/
def ofValues (clauses top : Json) : Except Json.Misuse Draft := do
  let clauses ← if clauses.isTrue then clauses.items else pure []
  let (read, varCount) ← clauses.foldlM (fun (acc : List (List Json) × Json) c => do
    let (lits, varCount) ← readClause acc.2 c
    return (lits :: acc.1, varCount)) ([], .int 0)
  Json.checkNumbers ">" varCount top
  return ⟨read.reverse, top.greater varCount, varCount⟩

/-- A formula as a draft. -/
def ofFormula (f : Formula) : Draft := ⟨f.clauses.map (·.map .int), .int f.top, .int f.varCount⟩

/-- The integer that a value is written as. -/
def int? : Json → Option Int
  | .int n => some n
  | _ => none

/-- The formula that a draft is, if its numbers are integers. -/
def formula? (d : Draft) : Option Formula := do
  let clauses ← d.clauses.mapM (·.mapM int?)
  let top ← int? d.top
  let varCount ← int? d.varCount
  return ⟨clauses, top, varCount.toNat⟩

/-- The fresh variables that follow the counter, and the draft whose counter has moved past them. -/
def newVariables (d : Draft) (n : Json) : Except AllocationError (List Int × Draft) := do
  if !n.isNumber then throw (.misuse (.addition d.top.kind n.kind))
  match d.top.integer?, n.integer? with
  | some top, some n =>
    checkCount n
    let next := Json.int (top + n)
    return ((List.range n.toNat).map fun i : Nat => top + 1 + (i : Int),
      { d with top := next, varCount := d.varCount.greater next })
  | top, n =>
    if (top <|> n).any fun k => !(Binary64.ofInt k).isFinite then throw .beyondFloats
    else throw (.misuse (.counting "float"))

/-- The draft with one more clause, which must have literals and none that is zero. -/
def addClause (d : Draft) (c : Clause) : Except ClauseError Draft :=
  if c = [] then .error .empty
  else if 0 ∈ c then .error .zero
  else
    .ok { d with
      clauses := d.clauses ++ [c.map .int]
      varCount := greatest (c.map fun l => .int l.natAbs) d.varCount }

end Draft

/-! ## Formulas and drafts -/

/-- A formula, or a draft of one. -/
inductive AnyFormula where
  /-- A formula. -/
  | settled (f : Formula)
  /-- A draft. -/
  | draft (d : Draft)
  deriving Repr

namespace AnyFormula

/-- The formula that a draft is, or the draft. -/
def ofDraft (d : Draft) : AnyFormula :=
  match d.formula? with
  | some f => .settled f
  | none => .draft d

/-- The formula of some clauses, with the counter at the given number or at the largest variable
that occurs. -/
def ofValues (clauses top : Json) : Except Json.Misuse AnyFormula :=
  (Draft.ofValues clauses top).map ofDraft

/-- The draft, or the formula as one. -/
def toDraft : AnyFormula → Draft
  | .settled f => .ofFormula f
  | .draft d => d

/-- The number of clauses. -/
def size : AnyFormula → Nat
  | .settled f => f.size
  | .draft d => d.clauses.length

/-- Fresh variables, and the formula whose counter has moved past them. -/
def newVariables (f : AnyFormula) (n : Json) : Except AllocationError (List Int × AnyFormula) :=
  match f, n with
  | .settled f, .int n => do
    checkCount n
    let (fresh, f) := f.newVariables n
    return (fresh, .settled f)
  | f, n => (f.toDraft.newVariables n).map fun r => (r.1, ofDraft r.2)

/-- The formula with a clause whose literals are given as any values. -/
def addValues (f : AnyFormula) (lits : List Json) : Except SessionError AnyFormula :=
  match f with
  | .settled f => (f.addValues lits).map .settled
  | .draft d => do
    let c ← (lits.mapM Json.toInteger).mapError .literal
    ((d.addClause c).mapError .clause).map ofDraft

/-- A copy, which has the clauses and the counter. -/
def copy : AnyFormula → Except Json.Misuse AnyFormula
  | .settled f => .ok (.settled f.copy)
  | .draft d => ofValues (.arr (d.clauses.map .arr)) d.top

/-- Opens a session on a formula, whose clauses the solver reads in its own way. The formula of a
session on a draft is what the solver has read. -/
def openSession {σ : Type} (f : AnyFormula) (solver : Solver σ) (intake : Intake) :
    Except SessionError (Session σ) :=
  match f with
  | .settled f => Session.openOn solver intake f
  | .draft d => Session.openReading solver intake d.clauses

end AnyFormula

end Dialectic.Sat
