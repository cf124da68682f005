import Dialectic.Audit.Entry
import Dialectic.Directory
import Dialectic.Json.Parser
import Dialectic.Text.Blank
import Dialectic.Text.Line
import Dialectic.Text.Utf8

/-!
# The audit log

The log is a text file with one entry a line. A process remembers the hash of the entry it wrote
last and the file it wrote it to; for another file, or after a restart, it takes the hash from the
last entry of the file. Lines that are no JSON are passed over.
-/

namespace Dialectic.Audit

/-! ## Reading a file -/

/-- A text in which every line ends with a line feed. -/
def unifyLineEnds : List Char → List Char
  | [] => []
  | '\r' :: '\n' :: rest => '\n' :: unifyLineEnds rest
  | '\r' :: rest => '\n' :: unifyLineEnds rest
  | c :: rest => c :: unifyLineEnds rest

/-- A text without carriage returns stays as it is. -/
theorem unifyLineEnds_of_not_mem {cs : List Char} (h : '\r' ∉ cs) : unifyLineEnds cs = cs := by
  fun_induction unifyLineEnds cs with
  | case1 => rfl
  | case2 => simp at h
  | case3 => simp at h
  | case4 c rest _ _ ih => rw [ih fun hr => h (List.mem_cons_of_mem _ hr)]

/-- Why a log cannot be read. -/
inductive ReadError where
  /-- The name of the file is no name. -/
  | name (e : Directory.NameError)
  /-- The file is no text. -/
  | utf8 (e : Text.Utf8.Error)
  /-- A line has a value that is beyond what can be read. -/
  | limit (e : Json.LimitError)
  /-- An entry has a value that is beyond what can be written. -/
  | write (e : Json.WriteError)
  /-- A value is no number of lines. -/
  | misuse (e : Json.Misuse)
  deriving DecidableEq, Repr

/-- What the error says. -/
def ReadError.message : ReadError → String
  | .name e => e.message
  | .utf8 e => e.message
  | .limit e => e.message
  | .write e => e.message
  | .misuse e => e.message

/-- The lines of a file. -/
def linesOf (bytes : List UInt8) : Except ReadError (List (List Char)) :=
  match Text.Utf8.decode bytes with
  | .ok cs => .ok (Text.pieces '\n' (Text.trimBy Text.isBlank (unifyLineEnds cs)))
  | .error e => .error (.utf8 e)

/-- The greatest number of lists and objects in each other in a line that is read. -/
def lineDepth : Nat := 985

/-- The value of a line; none if the line is no JSON. -/
def valueOf? (line : List Char) : Except ReadError (Option Json) :=
  match Json.parseWithin lineDepth (Text.ofChars line) with
  | .ok v => .ok (some v)
  | .error .malformed => .ok none
  | .error (.limit e) => .error (.limit e)

/-- The first hash that an entry in some lines has; `genesis` if none has one. -/
def firstHashOf : List (List Char) → Except ReadError Json
  | [] => .ok (.str genesis)
  | line :: rest => do
    match (← valueOf? line).bind (·.field? hashField) with
    | some h => return h
    | none => firstHashOf rest

/-- The hash that the last entry of a file has; `genesis` if there is no file. -/
def lastHash (d : Directory) (path : String) : Except ReadError Json := do
  (Directory.checkName path).mapError .name
  match d.find path with
  | .file bytes => firstHashOf (← linesOf bytes).reverse
  | _ => return .str genesis

/-- The lines from a place counted from the end; zero and negative numbers count from the front. -/
def window {α : Type} (limit : Int) (lines : List α) : List α :=
  if 0 < limit then lines.drop (lines.length - limit.toNat) else lines.drop (-limit).toNat

/-- A positive limit keeps the last lines, at most that many. -/
theorem length_window {α : Type} {limit : Int} (h : 0 < limit) (lines : List α) :
    (window limit lines).length = min limit.toNat lines.length := by
  rw [window, if_pos h, List.length_drop]
  omega

/-- The values of the last lines of a file, the newest first. -/
def recent (d : Directory) (path : String) (limit : Int) : Except ReadError (List Json) :=
  match d.find path with
  | .file bytes => do
    let values ← (window limit (← linesOf bytes)).mapM valueOf?
    return (values.filterMap id).reverse
  | _ => .ok []

/-- The error that a value is no number of lines. -/
def notLimit (limit : Json) : Json.Misuse :=
  if limit.isNumber then .slicing else .negation limit.kind

/-- The values of the last lines of a file, as many as a value says, the newest first. -/
def recentOf (d : Directory) (path : String) (limit : Json) : Except ReadError (List Json) :=
  match limit.integer?, d.find path with
  | some n, _ => recent d path n
  | none, .file bytes => do
    let _ ← linesOf bytes
    throw (.misuse (notLimit limit))
  | none, _ => .ok []

/-! ## Writing an entry -/

/-- What a process remembers of the chain. -/
structure Chain where
  /-- The hash of the entry before the next one. -/
  previous : Json
  /-- The file whose last entry it was taken from. -/
  path : Option String

/-- What a process remembers when it starts. -/
def Chain.fresh : Chain := ⟨.str genesis, none⟩

/-- The chain for a file: what is remembered if it belongs to the file, else what the file says. -/
def Chain.for (c : Chain) (d : Directory) (path : String) : Except ReadError Chain :=
  if c.path = some path then .ok c
  else (lastHash d path).map fun h => ⟨h, some path⟩

/-- The line of an entry. -/
def lineOf (fields : List (Text × Json)) : List Char := Json.write (.obj fields) ++ ['\n']

/-- A query that was logged. -/
structure Logged where
  /-- The chain after it. -/
  chain : Chain
  /-- The directory after it. -/
  directory : Directory
  /-- The fields of the entry. -/
  entry : List (Text × Json)

/-- Logs a query at a time, whose values can be written. The chain moves on even if the file cannot
be written. -/
def log (c : Chain) (d : Directory) (path : String) (time : Instant) (q : Query) :
    Except ReadError Logged := do
  let c ← c.for d path
  let entry := q.entry time c.previous
  return ⟨{ c with previous := (Assoc.get? entry hashField).getD .null },
    d.append path (Text.Utf8.encode (lineOf entry)), entry⟩

/-- Logs a query with any values at a time. One that has no hash is refused before its line is
written, but after the chain was taken up for the file. -/
def submit (c : Chain) (d : Directory) (path : String) (time : Instant) (q : Query) :
    Chain × Except ReadError Logged :=
  match c.for d path with
  | .error e => (c, .error e)
  | .ok c =>
    match takeHash (q.fields time c.previous) with
    | .error e => (c, .error (.write e))
    | .ok _ =>
      match log c d path time q with
      | .ok logged => (logged.chain, .ok logged)
      | .error e => (c, .error e)

end Dialectic.Audit
