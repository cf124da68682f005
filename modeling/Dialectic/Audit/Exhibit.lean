import Dialectic.Audit.Entry
import Dialectic.Index
import Dialectic.Json.Lookup

/-!
# Changed entries

Entries of a log can be changed and taken away before they are checked. A field can be put under any
value that is a key, and not only under a text; such an entry still has a hash if its keys have an
order.
-/

namespace Dialectic.Audit

/-- An entry that may have been changed. -/
inductive Exhibit where
  /-- A JSON value. -/
  | value (v : Json)
  /-- An object with keys that are no texts. -/
  | odd (fields : List (Json × Json))

namespace Exhibit

/-! ## Changing -/

/-- Why an entry is not changed. -/
inductive ChangeError where
  /-- A change has not three parts. -/
  | parts (e : Json.PartsError)
  /-- There is no such entry, or no such item of it. -/
  | index (e : IndexError)
  /-- A value is not of the kind that is needed. -/
  | misuse (e : Json.Misuse)
  deriving DecidableEq, Repr

/-- What the error says. -/
def ChangeError.message : ChangeError → String
  | .parts e => e.message
  | .index e => e.message
  | .misuse e => e.message

/-- Puts a value under a key of an entry, or at a position of it. -/
def put (e : Exhibit) (key item : Json) : Except ChangeError Exhibit :=
  match e, key with
  | .value (.obj fields), .str t => .ok (.value (.obj (Assoc.insert fields t item)))
  | .value (.obj fields), key => do
    let key ← key.key.mapError .misuse
    return .odd (Json.enter (fields.map fun f => (.str f.1, f.2)) key item)
  | .odd fields, key => do
    let key ← key.key.mapError .misuse
    return .odd (Json.enter fields key item)
  | .value (.arr items), key => do
    let p ← (Index.slot items.length key).mapError .index
    return .value (.arr (items.set p item))
  | .value v, _ => .error (.misuse (.assignment v.kind))

/-- Makes a change of one of several entries: a position, a key and what is put there. -/
def change (entries : List Exhibit) (c : Json) : Except ChangeError (List Exhibit) := do
  let (i, key, item) ← c.toTriple.mapError .parts
  let i ← (Index.ofJson .list i).mapError .index
  let p ← (Index.place .list entries.length i).mapError .index
  match entries[p]? with
  | some e => return entries.set p (← e.put key item)
  | none => return entries

/-- Takes one of several entries away. -/
def drop (entries : List Exhibit) (i : Json) : Except ChangeError (List Exhibit) := do
  let p ← (Index.slot entries.length i).mapError .index
  return entries.eraseIdx p

/-- Makes changes one after the other, and then takes entries away one after the other. -/
def changeAll (entries : List Json) (changes drops : Json) : Except ChangeError (List Exhibit) := do
  let changes ← changes.items.mapError .misuse
  let changed ← changes.foldlM change (entries.map .value)
  let drops ← drops.items.mapError .misuse
  drops.foldlM drop changed

/-! ## Hashing -/

/-- Whether two keys have an order. -/
def areOrdered : Json → Json → Bool
  | .str _, .str _ => true
  | a, b => a.isNumber && b.isNumber

/-- Checks that keys have an order, each with the one before it. -/
def checkOrder : List Json → Except Json.Misuse Unit
  | a :: b :: rest =>
    if areOrdered a b then checkOrder (b :: rest) else .error (.comparison "<" b.kind a.kind)
  | _ => .ok ()

/-- A key as the name of a field. -/
def nameOf : Json → Text
  | .str t => t
  | v => Text.ofChars v.write

/-- Whether a key comes before another or is equal to it. -/
def keyLe : Json → Json → Bool
  | .str s, .str t => Text.le s t
  | a, b => !b.isLess a

/-- The hash of an entry. -/
def hash : Exhibit → Except HashError String
  | .value v => hashOf v
  | .odd fields => do
    let body := fields.filter fun f => !f.1.isSame (.str (Text.ofString hashField))
    (checkOrder (body.map (·.1))).mapError .misuse
    let sorted := body.mergeSort fun a b => keyLe a.1 b.1
    let hashed := Json.obj (sorted.map fun f => (nameOf f.1, f.2.canonical))
    (Json.checkWritable hashDepth hashed).mapError .write
    return Digest.short hashed.write

/-! ## Checking -/

/-- Whether a field of an entry holds the given text. -/
def holds (e : Exhibit) (name text : String) : Except HashError Bool :=
  match e with
  | .value (.obj fields) => .ok (Audit.holds fields name text)
  | .value v => .error (.misuse (.feature v.kind "get"))
  | .odd fields =>
    .ok (match Json.lookup? fields (.str (Text.ofString name)) with
      | some (.str t) => t == Text.ofString text
      | _ => false)

/-- Checks that an entry has its own hash, and gives it. -/
def checkHash (e : Exhibit) : Except HashError (Option String) := do
  let _ ← e.holds hashField ""
  let h ← e.hash
  return if ← e.holds hashField h then some h else none

/-- Whether an entry names the hash of the entry before it, which is given. -/
def isLinked (before : Option String) (e : Exhibit) : Except HashError Bool :=
  match before with
  | some h => e.holds previousField h
  | none => .ok true

/-- Checks entries, oldest first: every entry has its own hash and, after the first, the hash of the
entry before it, which is given. -/
def verifyAfter : Option String → List Exhibit → Except HashError Bool
  | _, [] => .ok true
  | before, e :: rest => do
    match ← e.checkHash with
    | none => return false
    | some h => if ← e.isLinked before then verifyAfter (some h) rest else return false

/-- Checks the hashes and the links of entries, oldest first. -/
def verify (entries : List Exhibit) : Except HashError Bool := verifyAfter none entries

/-- On entries that are JSON values the two ways to check agree. -/
theorem verifyAfter_map_value (before : Option String) (entries : List Json) :
    verifyAfter before (entries.map .value) = Audit.verifyAfter before entries := by
  induction entries generalizing before with
  | nil => rfl
  | cons v rest ih =>
    cases v with
    | obj fields =>
      simp only [List.map_cons, verifyAfter, checkHash, isLinked, holds, hash, hashOf,
        Audit.verifyAfter, bind, Except.bind, pure, Except.pure]
      cases takeHash fields with
      | error e => rfl
      | ok own =>
        have hown : (Except.ok own : Except Json.WriteError String).mapError HashError.write =
            .ok own := rfl
        simp only [hown]
        by_cases h : Audit.holds fields hashField own = true
        · cases before with
          | none => simp [h, ih]
          | some b =>
            by_cases hb : Audit.holds fields previousField b = true <;> simp [h, hb, ih]
        · simp [h]
    | _ => rfl

end Exhibit

end Dialectic.Audit
