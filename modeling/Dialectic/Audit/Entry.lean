import Dialectic.Clock
import Dialectic.Digest
import Dialectic.Json.Printer

/-!
# Entries of the audit log

An entry is an object. Its hash is taken of its canonical text without the field that holds the
hash, and it names the hash of the entry before it, so the entries of a log form a chain.
-/

namespace Dialectic.Audit

/-- The field that holds the hash of an entry. -/
def hashField : String := "entry_hash"

/-- The field that holds the hash of the entry before. -/
def previousField : String := "hash_chain_previous"

/-- What the first entry of a chain names as the hash before it. -/
def genesis : String := "genesis"

/-- The text that the hash of an object is taken of. -/
def hashedText (fields : List (Text × Json)) : List Char :=
  Json.write (Json.canonical (.obj (Assoc.erase fields hashField)))

/-- The hash of an object that can be written. -/
def hash (fields : List (Text × Json)) : String := Digest.short (hashedText fields)

/-- The greatest number of lists and objects in each other in an object that is hashed. -/
def hashDepth : Nat := 985

/-- Whether an object has a hash: all of it can be written but the field that holds the hash. -/
def isHashable (fields : List (Text × Json)) : Bool :=
  (Json.obj (Assoc.erase fields hashField)).isWritableWithin hashDepth

/-- The hash of an object, unless something in it cannot be written. -/
def takeHash (fields : List (Text × Json)) : Except Json.WriteError String := do
  Json.checkWritable hashDepth (.obj (Assoc.erase fields hashField))
  return hash fields

/-- The hash is taken of an object that has one. -/
theorem takeHash_of_isHashable {fields : List (Text × Json)} (h : isHashable fields) :
    takeHash fields = .ok (hash fields) := by
  rw [takeHash, Json.checkWritable_eq_ok_iff.2 h]
  rfl

/-- Of an object that has no hash none is taken. -/
theorem exists_takeHash_eq_error {fields : List (Text × Json)} (h : ¬ isHashable fields) :
    ∃ e, takeHash fields = .error e := by
  rw [takeHash]
  cases hcheck : Json.checkWritable hashDepth (.obj (Assoc.erase fields hashField)) with
  | error e => exact ⟨e, rfl⟩
  | ok u => exact absurd (Json.checkWritable_eq_ok_iff.1 hcheck) h

/-- Why a value has no hash. -/
inductive HashError where
  /-- It is no object. -/
  | misuse (e : Json.Misuse)
  /-- Something in it cannot be written. -/
  | write (e : Json.WriteError)
  deriving DecidableEq, Repr

/-- The hash of a value, which must be an object. -/
def hashOf : Json → Except HashError String
  | .obj fields => (takeHash fields).mapError .write
  | v => .error (.misuse (.feature v.kind "items"))

/-! ## Queries -/

/-- What is logged of a query. The values are kept as they are, whatever their kind. -/
structure Query where
  /-- The number of the request. -/
  requestId : Json
  /-- The semantics asked for. -/
  semantics : Json
  /-- The fingerprint of the framework. -/
  frameworkHash : Json
  /-- The number of its arguments. -/
  numArguments : Json
  /-- The number of its attacks. -/
  numAttacks : Json
  /-- The number of labellings found. -/
  numLabellings : Json
  /-- How long it took, in milliseconds. -/
  elapsed : Json
  /-- The solver used. -/
  solver : Json
  /-- The number of lines skipped. -/
  skippedLines : Json

/-- Why arguments are no query. -/
inductive QueryError where
  /-- Some that are needed are not there. -/
  | missing (names : List String)
  /-- One is not known. -/
  | unexpected (name : Text)
  /-- They have no names. -/
  | unnamed (kind : String)
  deriving DecidableEq, Repr

/-- Names as they are listed in a sentence. -/
def listing : List String → String
  | [] => ""
  | [a] => a
  | [a, b] => a ++ " and " ++ b
  | names => ", ".intercalate names.dropLast ++ ", and " ++ names.getLastD ""

/-- What the error says. -/
def QueryError.message : QueryError → Text
  | .missing names =>
    "log_query() missing " ++ toString names.length ++ " required positional argument" ++
      (if names.length = 1 then "" else "s") ++ ": " ++
      listing (names.map fun n => "'" ++ n ++ "'")
  | .unexpected name =>
    Text.ofString "log_query() got an unexpected keyword argument '" ++ name ++ Text.ofString "'"
  | .unnamed kind =>
    "afsat.utils.audit.log_query() argument after ** must be a mapping, not " ++ kind

/-- The arguments that a query needs. -/
def needed : List String :=
  ["request_id", "semantics", "framework_hash", "num_arguments", "num_attacks",
   "num_labellings"]

/-- The arguments that a query may have besides. -/
def further : List String := ["elapsed_ms", "solver", "skipped_lines"]

/-- The query of the given arguments. -/
def Query.ofArguments (args : List (Text × Json)) : Except QueryError Query :=
  match args.find? fun a => !((needed ++ further).map Text.ofString).contains a.1 with
  | some a => .error (.unexpected a.1)
  | none =>
    let absent := needed.filter fun n => (Assoc.get? args (Text.ofString n)).isNone
    let value (name : String) default := (Assoc.get? args name).getD default
    if absent = [] then
      .ok
        { requestId := value "request_id" .null
          semantics := value "semantics" .null
          frameworkHash := value "framework_hash" .null
          numArguments := value "num_arguments" .null
          numAttacks := value "num_attacks" .null
          numLabellings := value "num_labellings" .null
          elapsed := value "elapsed_ms" (.float (Binary64.zero false))
          solver := value "solver" (.str "")
          skippedLines := value "skipped_lines" (.int 0) }
    else .error (.missing absent)

/-- The query of the arguments that the fields of a value are. -/
def Query.ofJson : Json → Except QueryError Query
  | .obj args => ofArguments args
  | v => .error (.unnamed v.kind)

/-! ## Entries -/

/-- The fields of an entry before its hash. -/
def Query.fields (q : Query) (time : Instant) (previous : Json) : List (Text × Json) :=
  [("timestamp", .str time.text),
   ("request_id", q.requestId),
   ("semantics", q.semantics),
   ("framework_hash", q.frameworkHash),
   ("num_arguments", q.numArguments),
   ("num_attacks", q.numAttacks),
   ("num_labellings", q.numLabellings),
   ("elapsed_ms", q.elapsed),
   ("solver", q.solver),
   ("skipped_lines", q.skippedLines),
   (previousField, previous)]

/-- The fields of an entry. -/
def Query.entry (q : Query) (time : Instant) (previous : Json) : List (Text × Json) :=
  let fields := q.fields time previous
  fields ++ [(Text.ofString hashField, .str (hash fields))]

/-! ## Chains -/

/-- Whether a field of an object holds the given text. -/
def holds (fields : List (Text × Json)) (name text : String) : Bool :=
  match Assoc.get? fields name with
  | some (.str t) => t == Text.ofString text
  | _ => false

/-- Checks entries, oldest first: every entry has its own hash and, after the first, the hash of the
entry before it, which is given. -/
def verifyAfter : Option String → List Json → Except HashError Bool
  | _, [] => .ok true
  | before, .obj fields :: rest =>
    match takeHash fields with
    | .error e => .error (.write e)
    | .ok h =>
      if !holds fields hashField h then .ok false
      else if before.any fun b => !holds fields previousField b then .ok false
      else verifyAfter (some h) rest
  | _, v :: _ => .error (.misuse (.feature v.kind "get"))

/-- Checks the hashes and the links of entries, oldest first. -/
def verify (entries : List Json) : Except HashError Bool := verifyAfter none entries

end Dialectic.Audit
