import Dialectic.Framework.Basic
import Dialectic.Labelling
import Dialectic.Sat.Formula
import Std.Data.HashSet.Lemmas

/-!
# Labellings as models

Every argument has three variables, one for each status, and the clauses say that exactly one of
them holds, that an unattacked argument is accepted, that an argument is accepted exactly if all its
attackers are rejected, and rejected exactly if one of them is accepted. The models of these clauses
are the complete labellings; the stable ones have the further clauses that nothing is undecided.
-/

namespace Dialectic

/-! ## Variables -/

/-- The variables of the three statuses, in the order of the arguments. -/
structure LabelVariables where
  /-- The variables that say that an argument is accepted. -/
  inn : List Int
  /-- The variables that say that an argument is rejected. -/
  out : List Int
  /-- The variables that say that an argument is undecided. -/
  und : List Int
  deriving DecidableEq, Repr

/-- Three fresh variables for each of a number of arguments, status by status. -/
def LabelVariables.allocate (f : Sat.Formula) (n : Int) : LabelVariables × Sat.Formula :=
  let (inn, f) := f.newVariables n
  let (out, f) := f.newVariables n
  let (und, f) := f.newVariables n
  (⟨inn, out, und⟩, f)

/-- The three variables of one argument. -/
structure Cell where
  /-- The variable that says that the argument is accepted. -/
  inn : Int
  /-- The variable that says that the argument is rejected. -/
  out : Int
  /-- The variable that says that the argument is undecided. -/
  und : Int

/-- The variables argument by argument. -/
def LabelVariables.cells (v : LabelVariables) : List Cell :=
  (v.inn.zip (v.out.zip v.und)).map fun p => ⟨p.1, p.2.1, p.2.2⟩

/-- The clause that some argument is accepted; it is empty if there are no arguments. -/
def LabelVariables.nonEmptyClause (v : LabelVariables) : Sat.Clause := v.inn

/-! ## Clauses -/

/-- Exactly one status holds. -/
def Cell.exactlyOne (c : Cell) : List Sat.Clause :=
  [[c.inn, c.out, c.und], [-c.inn, -c.out], [-c.inn, -c.und], [-c.out, -c.und]]

/-- The status of an argument follows from the statuses of its attackers; the variables of all
arguments that say that one is accepted, or rejected, are given. -/
def Cell.determined (inn out : Array Int) (c : Cell) (attackers : List Int) :
    Except IndexError (List Sat.Clause) :=
  if attackers = [] then .ok [[c.inn], [-c.out], [-c.und]]
  else do
    let outs ← attackers.mapM (Index.read .tuple out)
    let inns ← attackers.mapM (Index.read .tuple inn)
    return (outs.map fun o => [-c.inn, o]) ++ (outs.map (- ·) ++ [c.inn]) ::
      ((inns.map fun i => [-i, c.out]) ++ [inns ++ [-c.out]])

/-- A formula with the variables that its models are read by. -/
structure Encoding where
  /-- The clauses. -/
  formula : Sat.Formula
  /-- The variables of the statuses. -/
  vars : LabelVariables
  deriving DecidableEq, Repr

/-- The formula whose models are the complete labellings of a framework. -/
def Encoding.complete (f : Framework) : Except IndexError Encoding := do
  let (v, formula) := LabelVariables.allocate {} f.size
  let rows ← f.attackerIndex
  let inn := v.inn.toArray
  let out := v.out.toArray
  let determined ← (v.cells.zip rows).mapM fun p => p.1.determined inn out p.2
  return ⟨formula.pushAll (v.cells.flatMap Cell.exactlyOne ++ determined.flatten), v⟩

/-- The formula whose models are the stable labellings of a framework. -/
def Encoding.stable (f : Framework) : Except IndexError Encoding := do
  let e ← Encoding.complete f
  return { e with formula := e.formula.pushAll (e.vars.und.map fun u => [-u]) }

/-! ## Reading a model -/

/-- The variables that are true in a model; what the model does not mention is false. -/
def trueVariables (m : Sat.Model) : Std.HashSet Int := .ofList (m.filter fun l => decide (0 < l))

/-- A variable is true exactly if the model has it as a literal. -/
theorem mem_trueVariables {m : Sat.Model} {v : Int} : v ∈ trueVariables m ↔ 0 < v ∧ v ∈ m := by
  simp [trueVariables, and_comm]

/-- The status of the argument at a position, by the variables that are true; accepted wins over
rejected, and rejected over undecided. -/
def decodeAt (trues : Std.HashSet Int) (out : Array Int) (i : Nat) (inn : Int) :
    Except IndexError Status :=
  if inn ∈ trues then .ok .accepted
  else do
    let out ← Index.read .tuple out i
    return if out ∈ trues then .rejected else .undecided

/-- The labelling that a model describes. -/
def LabelVariables.decode (v : LabelVariables) (m : Sat.Model) : Except IndexError Labelling :=
  let trues := trueVariables m
  let out := v.out.toArray
  v.inn.zipIdx.mapM fun p => decodeAt trues out p.2 p.1

/-- The arguments that a model accepts, in increasing order. -/
def LabelVariables.accepted (v : LabelVariables) (m : Sat.Model) : List Nat :=
  let trues := trueVariables m
  (v.inn.zipIdx.filter fun p => decide (p.1 ∈ trues)).map (·.2)

/-- The variables that say that an argument is accepted, for the arguments that a model does not
accept. -/
def LabelVariables.notAccepted (v : LabelVariables) (m : Sat.Model) : Sat.Clause :=
  let trues := trueVariables m
  v.inn.filter fun x => decide (x ∉ trues)

end Dialectic
