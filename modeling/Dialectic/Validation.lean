import Dialectic.Json.Basic

/-!
# Validation issues

What is wrong with a value that was handed in: a fault, the place where it was found, and the value
found there.
-/

namespace Dialectic

/-- A step on the way into a value. -/
inductive Place where
  /-- Into a field. -/
  | field (name : String)
  /-- Into an item of a list. -/
  | item (position : Nat)
  deriving DecidableEq, Repr

/-- What is wrong with a value. -/
inductive Fault where
  /-- It is no text. -/
  | stringType
  /-- It is no list. -/
  | listType
  /-- It is no pair. -/
  | tupleType
  /-- It is not there. -/
  | missing
  /-- It has more than two items. -/
  | tooLong (count : Nat)
  /-- It is of a kind that stands for no integer. -/
  | intType
  /-- It has a fractional part. -/
  | intFromFloat
  /-- It is a text that writes no integer. -/
  | intParsing
  /-- It is a number or text beyond the size of integers. -/
  | intParsingSize
  /-- It is infinite or undefined. -/
  | finiteNumber
  /-- It is of a kind that stands for no truth value. -/
  | boolType
  /-- It is a number or text that stands for no truth value. -/
  | boolParsing
  /-- It is no object. -/
  | modelType
  /-- It has no fields to take. -/
  | modelAttributesType
  /-- It is the name of no semantics. -/
  | semantics
  /-- It is no JSON text. -/
  | jsonInvalid
  /-- It breaks a rule on its fields as a whole. -/
  | rule (text : String)
  deriving DecidableEq, Repr

namespace Fault

/-- The code of a fault. -/
def code : Fault → String
  | .stringType => "string_type"
  | .listType => "list_type"
  | .tupleType => "tuple_type"
  | .missing => "missing"
  | .tooLong _ => "too_long"
  | .intType => "int_type"
  | .intFromFloat => "int_from_float"
  | .intParsing => "int_parsing"
  | .intParsingSize => "int_parsing_size"
  | .finiteNumber => "finite_number"
  | .boolType => "bool_type"
  | .boolParsing => "bool_parsing"
  | .modelType => "model_type"
  | .modelAttributesType => "model_attributes_type"
  | .semantics => "enum"
  | .jsonInvalid => "json_invalid"
  | .rule _ => "value_error"

/-- What a fault says. -/
def message : Fault → String
  | .stringType => "Input should be a valid string"
  | .listType => "Input should be a valid list"
  | .tupleType => "Input should be a valid tuple"
  | .missing => "Field required"
  | .tooLong count =>
    "Tuple should have at most 2 items after validation, not " ++ toString count
  | .intType => "Input should be a valid integer"
  | .intFromFloat => "Input should be a valid integer, got a number with a fractional part"
  | .intParsing => "Input should be a valid integer, unable to parse string as an integer"
  | .intParsingSize => "Unable to parse input string as an integer, exceeded maximum size"
  | .finiteNumber => "Input should be a finite number"
  | .boolType => "Input should be a valid boolean"
  | .boolParsing => "Input should be a valid boolean, unable to interpret input"
  | .modelType => "Input should be a valid dictionary or instance of FrameworkRequest"
  | .modelAttributesType =>
    "Input should be a valid dictionary or object to extract fields from"
  | .semantics => "Input should be 'complete', 'stable' or 'preferred'"
  | .jsonInvalid => "JSON decode error"
  | .rule text => "Value error, " ++ text

end Fault

/-- A fault at a place. -/
structure Issue where
  /-- The way to the value. -/
  path : List Place
  /-- What is wrong with it. -/
  fault : Fault
  /-- The value; of something missing, the value in which it is missing. -/
  input : Json
  deriving Repr

/-- The issue as seen from further outside. -/
def Issue.under (outer : List Place) (i : Issue) : Issue := { i with path := outer ++ i.path }

/-- A step as a JSON value. -/
def Place.toJson : Place → Json
  | .field name => .str name
  | .item position => .int position

/-- The issue as a JSON value: its code, its place and its message. -/
def Issue.toJson (i : Issue) : Json :=
  .obj
    [("type", .str i.fault.code),
     ("loc", .arr (i.path.map Place.toJson)),
     ("msg", .str i.fault.message)]

/-! ## Collecting issues -/

/-- A value, or everything that is wrong with it. -/
abbrev Validated (α : Type) := Except (List Issue) α

/-- Both values, or the issues of both. -/
def Validated.both {α β : Type} : Validated α → Validated β → Validated (α × β)
  | .ok a, .ok b => .ok (a, b)
  | .ok _, .error e => .error e
  | .error e, .ok _ => .error e
  | .error e, .error e' => .error (e ++ e')

/-- All values of a list, or the issues of all. -/
def Validated.all {α : Type} : List (Validated α) → Validated (List α)
  | [] => .ok []
  | v :: rest => (Validated.both v (Validated.all rest)).map fun p => p.1 :: p.2

/-- The value of one fault at a place, which is no value. -/
def Validated.fault {α : Type} (path : List Place) (f : Fault) (input : Json) : Validated α :=
  .error [⟨path, f, input⟩]

end Dialectic
