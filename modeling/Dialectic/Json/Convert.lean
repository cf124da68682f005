import Dialectic.Json.Basic
import Dialectic.Number.Integer
import Dialectic.Text.Quoted

/-!
# Values in place of integers and pairs

What integer a JSON value stands for, and what two parts it has. A float stands for its integer
part, a truth value for zero or one, a text for the integer it writes. A list, a text and an object
have parts: their items, characters and names.
-/

namespace Dialectic.Json

/-! ## Integers -/

/-- Why a value stands for no integer. -/
inductive IntegerError where
  /-- A text that writes no integer. -/
  | badText (t : Text)
  /-- A text of too many digits. -/
  | size (e : Integer.SizeError)
  /-- A value of a kind that stands for no integer. -/
  | wrongKind (kind : String)
  /-- The float that is no number. -/
  | undefined
  /-- An infinity. -/
  | infinite
  deriving DecidableEq, Repr

/-- A text in quotes, cut off where it is long. -/
def quotedStart (t : Text) : String := String.ofList ((Text.quote t).toList.take 200)

/-- What the error says. -/
def IntegerError.message : IntegerError → String
  | .badText t => "invalid literal for int() with base 10: " ++ quotedStart t
  | .size e => e.message
  | .wrongKind kind =>
    "int() argument must be a string, a bytes-like object or a real number, not '" ++ kind ++ "'"
  | .undefined => "cannot convert float NaN to integer"
  | .infinite => "cannot convert float infinity to integer"

/-- The integer that a value stands for. -/
def toInteger : Json → Except IntegerError Int
  | .int n => .ok n
  | .bool b => .ok (if b then 1 else 0)
  | .float x =>
    match x.trunc? with
    | some n => .ok n
    | none => .error (if x = .nan then .undefined else .infinite)
  | .str t =>
    match Integer.ofText t with
    | .ok n => .ok n
    | .error .malformed => .error (.badText t)
    | .error (.size e) => .error (.size e)
  | v => .error (.wrongKind v.kind)

@[simp] theorem toInteger_int (n : Int) : toInteger (.int n) = .ok n := rfl

/-- The integer that a value equals as a number, if it is one. -/
def equalInteger? : Json → Option Int
  | .float x => x.toInt?
  | v => v.integer?

/-! ## Parts -/

/-- Why a value has not the number of parts that is needed. -/
inductive PartsError where
  /-- It has fewer parts. -/
  | tooFew (needed count : Nat)
  /-- It has more parts. -/
  | tooMany (needed : Nat)
  /-- A value of a kind that has no parts. -/
  | noParts (kind : String)
  deriving DecidableEq, Repr

/-- What the error says. -/
def PartsError.message : PartsError → String
  | .tooFew needed count =>
    "not enough values to unpack (expected " ++ toString needed ++ ", got " ++ toString count ++ ")"
  | .tooMany needed => "too many values to unpack (expected " ++ toString needed ++ ")"
  | .noParts kind => "cannot unpack non-iterable " ++ kind ++ " object"

/-- The parts of a value. -/
def parts? : Json → Option (List Json)
  | .arr items => some items
  | .str t => some (t.map fun c => .str [c])
  | .obj fields => some (fields.map fun f => .str f.1)
  | _ => none

/-- The two parts of a value. -/
def toPair (v : Json) : Except PartsError (Json × Json) :=
  match v.parts? with
  | none => .error (.noParts v.kind)
  | some [a, b] => .ok (a, b)
  | some parts => .error (if parts.length < 2 then .tooFew 2 parts.length else .tooMany 2)

/-- The three parts of a value. -/
def toTriple (v : Json) : Except PartsError (Json × Json × Json) :=
  match v.parts? with
  | none => .error (.noParts v.kind)
  | some [a, b, c] => .ok (a, b, c)
  | some parts => .error (if parts.length < 3 then .tooFew 3 parts.length else .tooMany 3)

end Dialectic.Json
