import Dialectic.Encoding
import Dialectic.Json.Lookup
import Dialectic.Sat.Draft

/-!
# Reading any values as a model

A labelling is read off a model by the variables of the statuses. Both may be given as any values:
what is greater than zero in the model is true, and a variable is true if a true value equals it.
-/

namespace Dialectic

/-! ## Errors -/

/-- Why a model is not read. -/
inductive ReadingError where
  /-- A value is not of the kind that is needed. -/
  | misuse (e : Json.Misuse)
  /-- An argument lacks a variable. -/
  | index (e : IndexError)
  deriving DecidableEq, Repr

/-- What the error says. -/
def ReadingError.message : ReadingError → String
  | .misuse e => e.message
  | .index e => e.message

/-! ## Variables -/

/-- What stands for the variables of the three statuses, in the order of the arguments. -/
structure LabelValues where
  /-- What says that an argument is accepted. -/
  inn : List Json
  /-- What says that an argument is rejected. -/
  out : List Json
  /-- What says that an argument is undecided. -/
  und : List Json
  deriving Repr

namespace LabelValues

/-- The variables that the items of three values are. -/
def ofValues (inn out und : Json) : Except Json.Misuse LabelValues := do
  let inn ← inn.items
  let out ← out.items
  let und ← und.items
  return ⟨inn, out, und⟩

/-- The variables, if all are integers. -/
def variables? (v : LabelValues) : Option LabelVariables := do
  let inn ← v.inn.mapM Sat.Draft.int?
  let out ← v.out.mapM Sat.Draft.int?
  let und ← v.und.mapM Sat.Draft.int?
  return ⟨inn, out, und⟩

/-! ## Reading -/

/-- The values of a model that are greater than zero. -/
def trueValues (m : List Json) : Except Json.Misuse (List Json) := do
  m.forM fun v => Json.checkNumbers ">" v (.int 0)
  return m.filter (Json.isLess (.int 0))

/-- Whether something equals one of the true values. -/
def isTrue (trues : List Json) (v : Json) : Except Json.Misuse Bool :=
  v.key.map fun k => trues.any (·.isSame k)

/-- The status of the argument at a position; accepted wins over rejected, and rejected over
undecided. -/
def decodeAt (v : LabelValues) (trues : List Json) (i : Nat) (inn : Json) :
    Except ReadingError Status := do
  if ← (isTrue trues inn).mapError .misuse then return .accepted
  let out ← (Index.get .tuple v.out i).mapError .index
  return if ← (isTrue trues out).mapError .misuse then .rejected else .undecided

/-- The labelling that the true values describe. -/
def decodeTrue (v : LabelValues) (trues : List Json) : Except ReadingError Labelling :=
  v.inn.zipIdx.mapM fun p => v.decodeAt trues p.2 p.1

/-- The arguments that the true values accept, in increasing order. -/
def acceptedTrue (v : LabelValues) (trues : List Json) : Except ReadingError (List Nat) := do
  let marks ← (v.inn.mapM (isTrue trues)).mapError .misuse
  return (marks.zipIdx.filter (·.1)).map (·.2)

/-- The labelling that a model describes. -/
def decode (v : LabelValues) (m : List Json) : Except ReadingError Labelling :=
  match v.variables?, m.mapM Sat.Draft.int? with
  | some v, some m => (v.decode m).mapError .index
  | _, _ => (trueValues m).mapError .misuse >>= v.decodeTrue

/-- The arguments that a model accepts, in increasing order. -/
def accepted (v : LabelValues) (m : List Json) : Except ReadingError (List Nat) :=
  match v.variables?, m.mapM Sat.Draft.int? with
  | some v, some m => .ok (v.accepted m)
  | _, _ => (trueValues m).mapError .misuse >>= v.acceptedTrue

end LabelValues

/-! ## Allocating -/

/-- Three fresh variables of a formula or a draft for each of a number of arguments, status by
status. -/
def LabelVariables.allocateAny (f : Sat.AnyFormula) (n : Json) :
    Except Sat.AllocationError (LabelVariables × Sat.AnyFormula) := do
  let (inn, f) ← f.newVariables n
  let (out, f) ← f.newVariables n
  let (und, f) ← f.newVariables n
  return (⟨inn, out, und⟩, f)

end Dialectic
