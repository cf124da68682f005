import Dialectic.Json.Basic

/-!
# Replies

A reply carries a JSON value or a plain text.
-/

namespace Dialectic

/-- A reply. -/
inductive Reply where
  /-- A JSON value. -/
  | json (status : Nat) (body : Json)
  /-- A plain text. -/
  | text (status : Nat) (text : String)

namespace Reply

/-- The reply after a failure that nobody expected. -/
def internalError : Reply := .text 500 "Internal Server Error"

/-- The reply that a path is found without the strokes at its end. -/
def redirect : Reply := .text 307 ""

end Reply

end Dialectic
