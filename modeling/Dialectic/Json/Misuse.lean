import Dialectic.Json.Convert
import Dialectic.Json.Display
import Dialectic.Number.Line

/-!
# Operations on any values

Values of any kind may come where a certain kind is wanted. Here are the operations that are tried
on them (to go through their items, to count with them, to compare them), and what is said when a
value does not admit one.
-/

namespace Dialectic

namespace Json

/-! ## What does not go -/

/-- An operation that a value, or two values together, do not admit. -/
inductive Misuse where
  /-- To go through its items. -/
  | iteration (kind : String)
  /-- To count with it. -/
  | counting (kind : String)
  /-- To add it to something. -/
  | addition (left right : String)
  /-- To compare it with something. -/
  | comparison (sign left right : String)
  /-- To change its sign. -/
  | negation (kind : String)
  /-- To leave out its sign. -/
  | magnitude (kind : String)
  /-- To find something under it. -/
  | key (kind : String)
  /-- To count items with it. -/
  | slicing
  /-- To change an item of it. -/
  | assignment (kind : String)
  /-- To take an item of it. -/
  | subscript (kind : String)
  /-- To use a feature that it does not have. -/
  | feature (kind name : String)
  deriving DecidableEq, Repr

/-- What is said when an operation does not go. -/
def Misuse.message : Misuse → String
  | .iteration kind => "'" ++ kind ++ "' object is not iterable"
  | .counting kind => "'" ++ kind ++ "' object cannot be interpreted as an integer"
  | .addition left right =>
    "unsupported operand type(s) for +: '" ++ left ++ "' and '" ++ right ++ "'"
  | .comparison sign left right =>
    "'" ++ sign ++ "' not supported between instances of '" ++ left ++ "' and '" ++ right ++ "'"
  | .negation kind => "bad operand type for unary -: '" ++ kind ++ "'"
  | .magnitude kind => "bad operand type for abs(): '" ++ kind ++ "'"
  | .key kind => "unhashable type: '" ++ kind ++ "'"
  | .slicing => "slice indices must be integers or None or have an __index__ method"
  | .assignment kind => "'" ++ kind ++ "' object does not support item assignment"
  | .subscript kind => "'" ++ kind ++ "' object is not subscriptable"
  | .feature kind name => "'" ++ kind ++ "' object has no attribute '" ++ name ++ "'"

/-! ## Items, numbers and truth -/

/-- The items that a value has when it is gone through. -/
def items (v : Json) : Except Misuse (List Json) :=
  match v.parts? with
  | some parts => .ok parts
  | none => .error (.iteration v.kind)

/-- The integer to count with. -/
def count (v : Json) : Except Misuse Int :=
  match v.integer? with
  | some n => .ok n
  | none => .error (.counting v.kind)

/-- Whether a value counts as true: nothing, zero, and what is empty do not. -/
def isTrue : Json → Bool
  | .null => false
  | .bool b => b
  | .int n => n != 0
  | .float x => x.toInt? != some 0
  | .str t => !t.isEmpty
  | .arr items => !items.isEmpty
  | .obj fields => !fields.isEmpty

/-- Whether a value is a number, as integers, floats and truth values are. -/
def isNumber : Json → Bool
  | .int _ | .bool _ | .float _ => true
  | _ => false

/-- A number without its sign. -/
def magnitude : Json → Except Misuse Json
  | .float x => .ok (.float x.magnitude)
  | v =>
    match v.integer? with
    | some n => .ok (.int n.natAbs)
    | none => .error (.magnitude v.kind)

/-- Whether something can be found under a value: not under lists and objects. -/
def isKey : Json → Bool
  | .arr _ | .obj _ => false
  | _ => true

/-- A value under which something can be found. -/
def key (v : Json) : Except Misuse Json := if v.isKey then .ok v else .error (.key v.kind)

/-! ## Comparing -/

/-- The place of a number on the number line. -/
def point? : Json → Option LinePoint
  | .float x => x.point?
  | v => v.integer?.map LinePoint.ofInt

/-- Whether the first of two numbers is less than the second. -/
def isLess (a b : Json) : Bool :=
  match a.point?, b.point? with
  | some p, some q => p.isBefore q
  | _, _ => false

/-- Whether two numbers are equal. -/
def isEqualNumber (a b : Json) : Bool :=
  match a.point?, b.point? with
  | some p, some q => p.isAt q
  | _, _ => false

/-- The greater of two numbers, and the first if neither is. -/
def greater (a b : Json) : Json := if a.isLess b then b else a

/-- Checks that two values are numbers, between which a sign can stand. -/
def checkNumbers (sign : String) (a b : Json) : Except Misuse Unit :=
  if a.isNumber && b.isNumber then .ok () else .error (.comparison sign a.kind b.kind)

/-- Whether a value is at least zero and less than a number. -/
def isWithin (v : Json) (n : Nat) : Except Misuse Bool := do
  checkNumbers "<=" (.int 0) v
  return v.point?.any fun p => !p.isBefore (.ofInt 0) && p.isBefore (.ofInt n)

/-- Whether a value is the one number that is none. -/
def isUndefined : Json → Bool
  | .float .nan => true
  | _ => false

mutual

/-- Whether two values are equal. Numbers are by what they are and not by how they are written, and
the order of the fields of an object does not matter. What is no number is equal to itself only
inside other values. -/
def isEqual : Json → Json → Bool
  | .null, .null => true
  | .str s, .str t => s == t
  | .arr as, .arr bs => areEqual as bs
  | .obj fs, .obj gs => fs.length == gs.length && areEqualFields fs gs
  | a, b => isEqualNumber a b

/-- Whether two lists are equal. -/
def areEqual : List Json → List Json → Bool
  | [], [] => true
  | a :: as, b :: bs => ((a.isUndefined && b.isUndefined) || isEqual a b) && areEqual as bs
  | _, _ => false

/-- Whether all fields are among other fields. -/
def areEqualFields : List (Text × Json) → List (Text × Json) → Bool
  | [], _ => true
  | (k, v) :: fs, gs =>
    (match Assoc.get? gs k with
      | some w => (v.isUndefined && w.isUndefined) || isEqual v w
      | none => false) && areEqualFields fs gs

end

/-- Whether two values are equal as parts of others, or the same thing is found under them. -/
def isSame (a b : Json) : Bool := (a.isUndefined && b.isUndefined) || a.isEqual b

end Json

end Dialectic
