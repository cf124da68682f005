import Dialectic.Request.Framework
import Dialectic.Request.Scalar

/-!
# Fields of requests

How the fields of a request for a framework are read: they may be missing or `null`, except for the
last, numbers and truth values may be given as other values, and every fault is reported.
-/

namespace Dialectic.Request

/-- A field that may be missing or `null`. -/
def optional {α : Type} (read : Json → Validated α) : Option Json → Validated (Option α)
  | none => .ok none
  | some .null => .ok none
  | some v => (read v).map some

/-- A list of values of one kind. -/
def listOf {α : Type} (path : List Place) (read : List Place → Json → Validated α) :
    Json → Validated (List α)
  | .arr items =>
    Validated.all (items.zipIdx.map fun p => read (path ++ [.item p.2]) p.1)
  | v => .fault path .listType v

/-- A pair of integers. -/
def pair (path : List Place) : Json → Validated (Int × Int)
  | .arr [a, b] => Validated.both (integer (path ++ [.item 0]) a) (integer (path ++ [.item 1]) b)
  | .arr [a] =>
    Validated.both (integer (path ++ [.item 0]) a) (.fault (path ++ [.item 1]) .missing (.arr [a]))
  | .arr [] =>
    Validated.both (.fault (path ++ [.item 0]) .missing (.arr []))
      (.fault (path ++ [.item 1]) .missing (.arr []))
  | .arr items => .fault path (.tooLong items.length) (.arr items)
  | v => .fault path .tupleType v

/-- The request that some fields are, of which every fault is reported. -/
def frameworkRequest (fields : List (Text × Json)) : Validated FrameworkRequest := do
  let apx := optional (text [.field "apx"]) (Assoc.get? fields "apx")
  let attacks := optional (listOf [.field "attacks"] pair) (Assoc.get? fields "attacks")
  let names := optional (listOf [.field "names"] text) (Assoc.get? fields "names")
  let strict :=
    match Assoc.get? fields "strict" with
    | none => .ok false
    | some v => truth [.field "strict"] v
  let (apx, attacks, names, strict) ←
    Validated.both apx (Validated.both attacks (Validated.both names strict))
  return ⟨apx, attacks, names, strict⟩

end Dialectic.Request
