import Dialectic.Json.Parser
import Dialectic.Text.Form

/-!
# Bodies of requests

The body of a request is a JSON text in one of the encoding forms, or empty.
-/

namespace Dialectic.Service

/-- Why a body is no value. -/
inductive BodyError where
  /-- It is no JSON text. -/
  | malformed
  /-- It is no text, or a value in it is beyond what can be read. -/
  | unreadable
  deriving DecidableEq, Repr

/-- The greatest number of lists and objects in each other in a body that is read. -/
def bodyDepth : Nat := 963

/-- The value that a body writes; an empty body writes none. -/
def valueOfBody (bytes : List UInt8) : Except BodyError (Option Json) :=
  if bytes = [] then .ok none
  else
    match Text.ofBytes? bytes with
    | none => .error .unreadable
    | some t =>
      match Json.parseWithin bodyDepth t with
      | .ok v => .ok (some v)
      | .error .malformed => .error .malformed
      | .error (.limit _) => .error .unreadable

end Dialectic.Service
