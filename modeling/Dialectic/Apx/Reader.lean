import Dialectic.Apx.Line
import Dialectic.Framework.Build

/-!
# Reading APX text

The arguments are numbered in the order in which they are first declared, and the attacks are
resolved once all lines have been read, so an attack may stand before the arguments it is between. A
line that cannot be used is skipped and reported when reading leniently, and ends a strict reading.
-/

namespace Dialectic.Apx

/-! ## Reports -/

/-- A line that could not be used. -/
structure Skipped where
  /-- The number of the line, counted from one. -/
  number : Nat
  /-- The line without the blanks around it. -/
  text : Text
  /-- Why it could not be used. -/
  reason : Reason
  deriving DecidableEq, Repr

/-- What a strict reading says about the line. -/
def Skipped.message (s : Skipped) : Text :=
  Text.ofString ("line " ++ toString s.number ++ ": ") ++ s.reason.message ++
    Text.ofString (": " ++ Text.quote s.text)

/-- A framework with the lines that did not go into it. -/
structure Report where
  /-- The framework. -/
  framework : Framework
  /-- The lines that were skipped. -/
  skipped : List Skipped
  deriving DecidableEq, Repr

/-- Why a text gives no framework. -/
inductive ReadError where
  /-- A strict reading met a line that cannot be used. -/
  | line (s : Skipped)
  /-- The names and attacks make no framework. -/
  | build (e : Framework.BuildError)
  /-- A value is no text. -/
  | misuse (e : Json.Misuse)
  deriving Repr

/-- What the error says. -/
def ReadError.message : ReadError → Text
  | .line s => s.message
  | .build e => e.message
  | .misuse e => e.message

/-! ## Lines -/

/-- The lines of a text without the blanks around them, with their numbers. -/
def numberedLines (text : Text) : List (Text × Nat) := ((Text.lines text).map Text.trim).zipIdx 1

/-- An attack whose names are still to be resolved. -/
structure Pending where
  /-- The number of the line. -/
  number : Nat
  /-- The line. -/
  text : Text
  /-- The name of the argument that attacks. -/
  origin : Text
  /-- The name of the argument that is attacked. -/
  target : Text
  deriving DecidableEq, Repr

/-- What has been read so far. -/
structure Draft where
  /-- The declared names, each once, in the order in which they were first declared. -/
  names : List Text
  /-- The attacks. -/
  pending : List Pending
  /-- The lines that were skipped. -/
  skipped : List Skipped
  deriving DecidableEq, Repr

/-- Nothing read. -/
def Draft.empty : Draft := ⟨[], [], []⟩

/-- Skips a line, or ends a strict reading. -/
def reject (strict : Bool) (skipped : List Skipped) (s : Skipped) :
    Except ReadError (List Skipped) :=
  if strict then .error (.line s) else .ok (skipped ++ [s])

/-- Reads one line. -/
def Draft.read (strict : Bool) (d : Draft) (line : Text × Nat) : Except ReadError Draft :=
  match Line.ofTrimmed line.1 with
  | .silent => .ok d
  | .arg name => .ok (if name ∈ d.names then d else { d with names := d.names ++ [name] })
  | .att origin target =>
    .ok { d with pending := d.pending ++ [⟨line.2, line.1, origin, target⟩] }
  | .bad reason => do
    let skipped ← reject strict d.skipped ⟨line.2, line.1, reason⟩
    return { d with skipped := skipped }

/-! ## Attacks -/

/-- The names of an attack that are not declared. -/
def Pending.missing (names : List Text) (p : Pending) : List Text :=
  [p.origin, p.target].filter fun n => n ∉ names

/-- The attacks whose names are declared, by name, and the lines skipped so far. -/
structure Resolved where
  /-- The attacks. -/
  attacks : List (Text × Text)
  /-- The lines that were skipped. -/
  skipped : List Skipped
  deriving DecidableEq, Repr

/-- Resolves one attack. -/
def Resolved.add (strict : Bool) (names : List Text) (r : Resolved) (p : Pending) :
    Except ReadError Resolved :=
  match p.missing names with
  | [] => .ok { r with attacks := r.attacks ++ [(p.origin, p.target)] }
  | missing => do
    let skipped ← reject strict r.skipped ⟨p.number, p.text, .undeclared missing⟩
    return { r with skipped := skipped }

/-! ## Texts -/

/-- Reads a text. -/
def read (strict : Bool) (text : Text) : Except ReadError Report := do
  let d ← (numberedLines text).foldlM (Draft.read strict) Draft.empty
  let r ← d.pending.foldlM (Resolved.add strict d.names) ⟨[], d.skipped⟩
  let f ← (Framework.ofNames d.names r.attacks).mapError .build
  return ⟨f, r.skipped⟩

/-- Reads the text that a value is. -/
def readValue (strict : Bool) : Json → Except ReadError Report
  | .str t => read strict t
  | v => .error (.misuse (.feature v.kind "splitlines"))

end Dialectic.Apx
