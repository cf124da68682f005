import Dialectic.Request.Framework
import Dialectic.Service.Reply

/-!
# What stands before the service

What reads the values in requests, and what sends the values in replies, is left open: a frontend is
any functions that do so. What is known of all frontends is which values they send as they are, and
that others make the reply fail (`Frontend.SendsStandard`).
-/

namespace Dialectic

/-! ## Fields that are not sent -/

namespace Json

/-- What the names of fields that are not sent begin with. -/
def hiddenStart : Text := Text.ofString "_sa"

mutual

/-- A value without the fields that are not sent. -/
def visible : Json → Json
  | .arr items => .arr (visibleItems items)
  | .obj fields => .obj (visibleFields fields)
  | .null => .null
  | .bool b => .bool b
  | .int n => .int n
  | .float x => .float x
  | .str t => .str t

/-- The items of a list without the fields that are not sent. -/
def visibleItems : List Json → List Json
  | [] => []
  | v :: rest => visible v :: visibleItems rest

/-- The fields of an object that are sent. -/
def visibleFields : List (Text × Json) → List (Text × Json)
  | [] => []
  | (k, v) :: rest =>
    if hiddenStart.isPrefixOf k then visibleFields rest else (k, visible v) :: visibleFields rest

end

end Json

/-! ## Frontends -/

/-- How the values in requests are read, and the values in replies are sent. -/
structure Frontend where
  /-- The text that the value at a place is accepted for. -/
  text : List Place → Json → Validated Text
  /-- The integer that the value at a place is accepted for. -/
  integer : List Place → Json → Validated Int
  /-- The request that the fields of an object are. -/
  request : List (Text × Json) → Validated FrameworkRequest
  /-- The reply with a status and a value. -/
  send : Nat → Json → Reply

namespace Frontend

/-- A reply with a value that answers a request. -/
def ok (fe : Frontend) (body : Json) : Reply := fe.send 200 body

/-- A reply that says what went wrong. -/
def detail (fe : Frontend) (status : Nat) (text : Text) : Reply :=
  fe.send status (.obj [("detail", .str text)])

/-- An issue as the reply to a faulty request shows it: with the faulty value. -/
def issueJson (i : Issue) : Json :=
  .obj
    [("type", .str i.fault.code),
     ("loc", .arr (i.path.map Place.toJson)),
     ("msg", .str i.fault.message),
     ("input", i.input)]

/-- The reply to a request that has faults. It is told here without the faulty values, but they are
sent too. -/
def invalid (fe : Frontend) (issues : List Issue) : Reply :=
  match fe.send 422 (.obj [("detail", .arr (issues.map issueJson))]) with
  | .json status _ => .json status (.obj [("detail", .arr (issues.map Issue.toJson))])
  | failure => failure

/-! ## What is known of them -/

/-- Whether a frontend sends values as standard JSON. This is about values in which no field's name
begins with `_sa`, with at most ten lists and objects in each other. -/
structure SendsStandard (fe : Frontend) : Prop where
  /-- What standard JSON can write is sent as it is. -/
  sends : ∀ {status : Nat} {body : Json}, body.visible = body → body.depth ≤ 10 →
    body.isSendable → fe.send status body = .json status body
  /-- What it cannot write makes the reply fail. -/
  fails : ∀ {status : Nat} {body : Json}, body.visible = body → body.depth ≤ 10 →
    ¬ body.isSendable → fe.send status body = .internalError

end Frontend

end Dialectic
