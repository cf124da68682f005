import Dialectic.Apx.Reader
import Dialectic.Json.Misuse
import Dialectic.Validation

/-!
# Requests for a framework

A request gives a framework either as APX text or as a list of attacks between numbers, which may
come with names for the numbers. How the fields of an object are read as a request is left open; a
request that is read has to keep the rules on its fields as a whole, of which the first that is
broken is reported.
-/

namespace Dialectic

/-- A request for a framework. -/
structure FrameworkRequest where
  /-- The APX text. -/
  apx : Option Text
  /-- The attacks. -/
  attacks : Option (List (Int × Int))
  /-- The names of the arguments. -/
  names : Option (List Text)
  /-- Whether the APX text is read strictly. -/
  strict : Bool
  deriving DecidableEq, Repr

namespace FrameworkRequest

/-! ## Rules -/

/-- The first rule that a request breaks. -/
def broken? (r : FrameworkRequest) : Option String :=
  if r.apx.isNone = r.attacks.isNone then some "Provide exactly one of 'apx' or 'attacks'"
  else if r.names.isSome ∧ r.attacks.isNone then
    some "'names' only applies to 'attacks'; APX text declares its own names"
  else if (r.attacks.getD []).any fun p => p.1 < 0 || p.2 < 0 then
    some "Attack indices must be non-negative"
  else if ¬ (r.names.getD []).Nodup then some "Argument names must be distinct"
  else none

/-- The request that an object is whose fields are read with a function. -/
def ofObject (read : List (Text × Json) → Validated FrameworkRequest)
    (fields : List (Text × Json)) :
    Validated FrameworkRequest := do
  let r ← read fields
  match r.broken? with
  | some rule => .fault [] (.rule rule) (.obj fields)
  | none => return r

/-- The request that a value is. -/
def ofJson (read : List (Text × Json) → Validated FrameworkRequest) :
    Json → Validated FrameworkRequest
  | .obj fields => ofObject read fields
  | v => .fault [] .modelType v

/-! ## The framework -/

/-- Why a request gives no framework. -/
inductive Refusal where
  /-- The APX text cannot be read strictly. -/
  | apx (e : Apx.ReadError)
  /-- The names and attacks make no framework. -/
  | build (e : Framework.BuildError)
  /-- The limit is no number. -/
  | noLimit (e : Json.Misuse)
  /-- The framework is larger than the limit. -/
  | tooLarge (size : Int) (limit : Json)
  deriving Repr

/-- What the refusal says, unless a number in it is too long to be written. -/
def Refusal.message : Refusal → Except Integer.SizeError Text
  | .apx e => .ok e.message
  | .build e => .ok e.message
  | .noLimit e => .ok e.message
  | .tooLarge size limit => do
    let size ← Integer.write size
    let limit ← limit.plain
    return Text.ofString "Framework has " ++ Text.ofChars size ++
      Text.ofString " arguments; limit is " ++ limit

/-- The status code of the refusal; that the limit is no number is not the fault of the request. -/
def Refusal.status : Refusal → Nat
  | .tooLarge .. => 413
  | .noLimit _ => 500
  | _ => 422

/-- The framework of a request, whatever its size. -/
def report (r : FrameworkRequest) : Except Refusal Apx.Report :=
  match r.apx with
  | some apx => (Apx.read r.strict apx).mapError .apx
  | none =>
    let attacks := (r.attacks.getD []).map fun p => ⟨p.1, p.2⟩
    match r.names with
    | some names =>
      let table := names.zipIdx.map fun p => (p.1, (p.2 : Int))
      ((Framework.ofNamed table attacks).map fun f => ⟨f, []⟩).mapError .build
    | none => .ok ⟨Framework.ofAttacks attacks, []⟩

/-- The framework of a request, which must not have more arguments than the limit. -/
def build (r : FrameworkRequest) (limit : Json) : Except Refusal Apx.Report := do
  let report ← r.report
  (Json.checkNumbers ">" (.int report.framework.size) limit).mapError .noLimit
  if limit.isLess (.int report.framework.size) then throw (.tooLarge report.framework.size limit)
  return report

end FrameworkRequest

end Dialectic
