import Dialectic.Request.Fields
import Dialectic.Service.Frontend

/-!
# The frontend that runs

The frontend with which the service runs. It sends values as standard JSON
(`Frontend.sendsStandard_standard`), unless they have too many lists and objects in each other.
-/

namespace Dialectic.Frontend

/-- The greatest number of lists and objects in each other in a value that is sent. -/
def depthLimit : Nat := 960

/-- A reply with a value, without the fields that are not sent. That the value cannot be sent is a
failure that nobody expected. -/
def sendStandard (status : Nat) (body : Json) : Reply :=
  if body.visible.isSendable && body.visible.depth ≤ depthLimit then .json status body.visible
  else .internalError

/-- The frontend with which the service runs. -/
def standard : Frontend where
  text := Request.text
  integer := Request.integer
  request := Request.frameworkRequest
  send := sendStandard

/-- That frontend sends values as standard JSON. -/
theorem sendsStandard_standard : standard.SendsStandard := by
  refine ⟨fun {status body} hvisible hdepth hsend => ?_, fun {status body} hvisible _ hsend => ?_⟩
  · have hlimit : body.depth ≤ depthLimit := Nat.le_trans hdepth (by decide)
    simp only [standard, sendStandard, hvisible, hsend, hlimit, decide_true, Bool.and_true, if_true]
  · simp only [standard, sendStandard, hvisible, hsend, Bool.false_and, Bool.false_eq_true,
      if_false]

end Dialectic.Frontend
