import Dialectic.Json.Basic
import Dialectic.Number.Integer
import Dialectic.Number.Shortest
import Dialectic.Text.Quoted

/-!
# JSON as text

The text of a JSON value: one line, a blank after every comma and colon, and only ASCII characters,
all others being escaped. The canonical form of a value has the fields of every object in the order
of their names.
-/

namespace Dialectic.Json

open Text (hex)

/-! ## Strings -/

/-- The escape of one sixteen-bit unit. -/
def escapeUnit (n : Nat) : List Char := '\\' :: 'u' :: hex 4 n

/-- One character inside a string: short escapes where there are any, code units for the other
characters outside the range from the blank to the tilde. -/
def escapeChar (c : Char) : List Char :=
  if c = '"' then ['\\', '"']
  else if c = '\\' then ['\\', '\\']
  else if c = '\n' then ['\\', 'n']
  else if c = '\r' then ['\\', 'r']
  else if c = '\t' then ['\\', 't']
  else if c.toNat = 12 then ['\\', 'f']
  else if c.toNat = 8 then ['\\', 'b']
  else if 32 ≤ c.toNat ∧ c.toNat < 127 then [c]
  else if c.toNat < 0x10000 then escapeUnit c.toNat
  else
    let n := c.toNat - 0x10000
    escapeUnit (0xd800 + n / 1024) ++ escapeUnit (0xdc00 + n % 1024)

/-- One code point inside a string. -/
def escapePoint : CodePoint → List Char
  | .char c => escapeChar c
  | .surrogate u => escapeUnit (0xd800 + u.val)

/-- A string with its quotes. -/
def writeString (t : Text) : List Char := '"' :: t.flatMap escapePoint ++ ['"']

/-! ## Values -/

/-- The texts of a list, with a comma and a blank between them. -/
def commaSeparated : List (List Char) → List Char
  | [] => []
  | [t] => t
  | t :: rest => t ++ ',' :: ' ' :: commaSeparated rest

mutual

/-- The text of a value. -/
def write : Json → List Char
  | .null => ['n', 'u', 'l', 'l']
  | .bool true => ['t', 'r', 'u', 'e']
  | .bool false => ['f', 'a', 'l', 's', 'e']
  | .int n => (toString n).toList
  | .float x => FloatLayout.standard.write x
  | .str s => writeString s
  | .arr items => '[' :: commaSeparated (writeItems items) ++ [']']
  | .obj fields => '{' :: commaSeparated (writeFields fields) ++ ['}']

/-- The texts of the items of a list. -/
def writeItems : List Json → List (List Char)
  | [] => []
  | v :: rest => write v :: writeItems rest

/-- The texts of the fields of an object. -/
def writeFields : List (Text × Json) → List (List Char)
  | [] => []
  | (k, v) :: rest => (writeString k ++ ':' :: ' ' :: write v) :: writeFields rest

end

/-- The text of a value, as a string. -/
def render (v : Json) : String := String.ofList (write v)

/-! ## Size -/

mutual

/-- Whether a value can be written: no integer in it has too many digits. -/
def isWritable : Json → Bool
  | .int n => Integer.isWritable n
  | .arr items => areWritable items
  | .obj fields => areWritableFields fields
  | _ => true

/-- Whether all items of a list can be written. -/
def areWritable : List Json → Bool
  | [] => true
  | v :: rest => v.isWritable && areWritable rest

/-- Whether the values of all fields of an object can be written. -/
def areWritableFields : List (Text × Json) → Bool
  | [] => true
  | (_, v) :: rest => v.isWritable && areWritableFields rest

end

/-- Why a value cannot be written. -/
inductive WriteError where
  /-- An integer has too many digits. -/
  | digits (e : Integer.SizeError)
  /-- Too many lists and objects lie in each other. -/
  | depth
  deriving DecidableEq, Repr

/-- What the error says. -/
def WriteError.message : WriteError → String
  | .digits e => e.message
  | .depth => "maximum recursion depth exceeded while encoding a JSON object"

/-- Whether a value can be written of which at most so many lists and objects lie in each other. -/
def isWritableWithin (limit : Nat) (v : Json) : Bool := v.depth ≤ limit && v.isWritable

/-- Checks whether a value can be written. -/
def checkWritable (limit : Nat) (v : Json) : Except WriteError Unit :=
  if limit < v.depth then .error .depth
  else if v.isWritable then .ok ()
  else .error (.digits .writing)

/-- A value that can be written passes the check, and no other does. -/
theorem checkWritable_eq_ok_iff {limit : Nat} {v : Json} :
    checkWritable limit v = .ok () ↔ v.isWritableWithin limit := by
  rw [checkWritable, isWritableWithin, Bool.and_eq_true, decide_eq_true_iff]
  by_cases hdepth : limit < v.depth
  · simp [if_pos hdepth, Nat.not_le.2 hdepth]
  · rw [if_neg hdepth, and_iff_right (Nat.not_lt.1 hdepth)]
    split
    · simp [*]
    · simp [*]

/-! ## Canonical form -/

/-- Fields in the order of their names. -/
def sortFields (fields : List (Text × Json)) : List (Text × Json) :=
  fields.mergeSort fun a b => Text.le a.1 b.1

mutual

/-- The value with the fields of every object in the order of their names. -/
def canonical : Json → Json
  | .arr items => .arr (canonicalItems items)
  | .obj fields => .obj (sortFields (canonicalFields fields))
  | .null => .null
  | .bool b => .bool b
  | .int n => .int n
  | .float x => .float x
  | .str s => .str s

/-- The items of a list in canonical form. -/
def canonicalItems : List Json → List Json
  | [] => []
  | v :: rest => canonical v :: canonicalItems rest

/-- The fields of an object with their values in canonical form. -/
def canonicalFields : List (Text × Json) → List (Text × Json)
  | [] => []
  | (k, v) :: rest => (k, canonical v) :: canonicalFields rest

end

end Dialectic.Json
