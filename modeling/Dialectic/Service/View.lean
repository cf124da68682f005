import Dialectic.Labelling
import Dialectic.Validation

/-!
# Labellings by name

A labelling as it is shown to others: the statuses by name, and the names of the arguments of each
status.
-/

namespace Dialectic

/-- A labelling by name. -/
structure LabellingView where
  /-- The names of the statuses. -/
  statuses : List String
  /-- The names of the accepted arguments. -/
  accepted : List Text
  /-- The names of the rejected arguments. -/
  rejected : List Text
  /-- The names of the undecided arguments. -/
  undecided : List Text
  deriving DecidableEq, Repr

namespace LabellingView

/-- Why a labelling cannot be shown. -/
inductive Error where
  /-- An argument has no name. -/
  | label (e : Labelling.LabelError)
  /-- Arguments are called by values that are no texts. -/
  | issues (is : List Issue)
  deriving Repr

/-- The names of some arguments. -/
def namesOf (names : Json) (field : String) (arguments : List Nat) :
    Except Labelling.LabelError (Validated (List Text)) := do
  let labels ← arguments.mapM (Labelling.label names)
  return Validated.all (labels.zipIdx.map fun p =>
    match p.1 with
    | .str t => .ok t
    | v => .fault [.field field, .item p.2] .stringType v)

/-- The view of a labelling with the given names. -/
def ofLabelling (l : Labelling) (names : Json) : Except Error LabellingView := do
  let accepted ← (namesOf names "accepted" l.accepted).mapError .label
  let rejected ← (namesOf names "rejected" l.rejected).mapError .label
  let undecided ← (namesOf names "undecided" l.undecided).mapError .label
  let (accepted, rejected, undecided) ←
    (Validated.both accepted (Validated.both rejected undecided)).mapError .issues
  return ⟨l.map Status.name, accepted, rejected, undecided⟩

/-- The view as a JSON value. -/
def toJson (v : LabellingView) : Json :=
  .obj
    [("statuses", .arr (v.statuses.map fun s : String => .str s)),
     ("accepted", .arr (v.accepted.map .str)),
     ("rejected", .arr (v.rejected.map .str)),
     ("undecided", .arr (v.undecided.map .str))]

end LabellingView

end Dialectic
