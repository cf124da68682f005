import Dialectic.Assoc
import Dialectic.Number.Binary64
import Dialectic.Text.Basic

/-!
# JSON values

JSON values in which integers and floating-point numbers are different things and an object keeps
its fields in the order in which their names first came.
-/

namespace Dialectic

/-- A JSON value. -/
inductive Json where
  /-- The value `null`. -/
  | null
  /-- A truth value. -/
  | bool (b : Bool)
  /-- An integer of any size. -/
  | int (n : Int)
  /-- A floating-point number, infinite and undefined ones included. -/
  | float (x : Binary64)
  /-- A text. -/
  | str (t : Text)
  /-- A list. -/
  | arr (items : List Json)
  /-- An object, its fields in order. -/
  | obj (fields : List (Text × Json))
  deriving Repr, Inhabited

namespace Json

/-! ## Fields -/

/-- The value of a field of an object; a value that is no object has none. -/
def field? : Json → Text → Option Json
  | .obj fields, key => Assoc.get? fields key
  | _, _ => none

/-- The string that a value is, if it is one without surrogates. -/
def name? : Json → Option String
  | .str t => t.toString?
  | _ => none

/-- The integer that a value is, as truth values are too. -/
def integer? : Json → Option Int
  | .int n => some n
  | .bool b => some (if b then 1 else 0)
  | _ => none

/-! ## Kinds -/

/-- What kind of value this is, as messages call it. -/
def kind : Json → String
  | .null => "NoneType"
  | .bool _ => "bool"
  | .int _ => "int"
  | .float _ => "float"
  | .str _ => "str"
  | .arr _ => "list"
  | .obj _ => "dict"

/-! ## Sending -/

mutual

/-- Whether a value can be sent as standard JSON: no number in it is infinite or undefined, and its
texts and names consist of characters. -/
def isSendable : Json → Bool
  | .float x => x.isFinite
  | .str t => t.isProper
  | .arr items => areSendable items
  | .obj fields => areSendableFields fields
  | _ => true

/-- Whether all items of a list can be sent. -/
def areSendable : List Json → Bool
  | [] => true
  | v :: rest => v.isSendable && areSendable rest

/-- Whether all fields of an object can be sent. -/
def areSendableFields : List (Text × Json) → Bool
  | [] => true
  | (k, v) :: rest => k.isProper && v.isSendable && areSendableFields rest

end

/-! ## Depth -/

mutual

/-- How many lists and objects lie in each other in a value. -/
def depth : Json → Nat
  | .arr items => depthOfItems items + 1
  | .obj fields => depthOfFields fields + 1
  | _ => 0

/-- The greatest depth of the items of a list. -/
def depthOfItems : List Json → Nat
  | [] => 0
  | v :: rest => max v.depth (depthOfItems rest)

/-- The greatest depth of the fields of an object. -/
def depthOfFields : List (Text × Json) → Nat
  | [] => 0
  | (_, v) :: rest => max v.depth (depthOfFields rest)

end

end Json

end Dialectic
