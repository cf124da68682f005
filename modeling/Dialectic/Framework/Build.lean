import Dialectic.Framework.Basic
import Dialectic.Json.Misuse

/-!
# Building frameworks

Frameworks from attacks alone, from a table that gives every name an index, and from a list of
names. A framework built from a table or a list of names is well-formed, since what would break it
is refused.
-/

namespace Dialectic.Framework

/-! ## Errors -/

/-- Why no framework is built. -/
inductive BuildError where
  /-- A value is not of the kind that is needed. -/
  | misuse (e : Json.Misuse)
  /-- An index is of a kind that is no position. -/
  | index (e : IndexError)
  /-- An attack has not two parts. -/
  | pair (e : Json.PartsError)
  /-- An end of an attack stands for no integer. -/
  | number (e : Json.IntegerError)
  /-- The name table of `n` names gives a name an index that is out of range or taken. -/
  | notBijective (n : Nat) (name index : Json)
  /-- An attack leaves the arguments of a framework of `n` names. -/
  | outsideRange (n : Nat) (attack : Attack)
  /-- An attack has a value in place of a name that is not in the list. -/
  | unknownName (name : Json)
  deriving Repr

/-- The last index of a table, as a message shows it. -/
def lastIndex (n : Nat) : Text := toString ((n : Int) - 1)

/-- The number of an argument as a message shows it. -/
def numberText (n : Int) : Except Integer.SizeError Text := (Json.int n).plain

/-- What the error says, unless a number in it is too long to be written. -/
def BuildError.text : BuildError → Except Integer.SizeError Text
  | .misuse e => .ok e.message
  | .index e => .ok e.message
  | .pair e => .ok e.message
  | .number e => .ok e.message
  | .notBijective n name i => do
    let i ← i.plain
    return Text.ofString "Name table is not a bijection onto 0.." ++ lastIndex n ++
      Text.ofString (": " ++ name.display ++ " -> ") ++ i
  | .outsideRange n a => do
    let origin ← numberText a.origin
    let target ← numberText a.target
    return Text.ofString "Attack " ++ origin ++ Text.ofString "->" ++ target ++
      Text.ofString " outside named range 0.." ++ lastIndex n
  | .unknownName name => .ok name.display

/-- What the error says. Of a number that is too long to be written, it says that. -/
def BuildError.message (e : BuildError) : Text :=
  match e.text with
  | .ok t => t
  | .error e => e.message

/-! ## From attacks -/

/-- The greatest number that occurs in the attacks, `-1` if there is none. -/
def highest : List Attack → Int
  | [] => -1
  | [a] => max a.origin a.target
  | a :: rest => max (max a.origin a.target) (highest rest)

/-- The ends of the attacks do not exceed the greatest number. -/
theorem le_highest {attacks : List Attack} {a : Attack} (h : a ∈ attacks) :
    a.origin ≤ highest attacks ∧ a.target ≤ highest attacks := by
  fun_induction highest attacks with
  | case1 => simp at h
  | case2 b =>
    obtain rfl : a = b := by simpa using h
    omega
  | case3 b rest _ ih =>
    rcases List.mem_cons.1 h with rfl | h
    · omega
    · have := ih h
      omega

/-- The framework whose arguments reach up to the greatest number that occurs. -/
def ofAttacks (attacks : List Attack) : Framework := ⟨highest attacks + 1, attacks, none⟩

/-! ## From a table of names -/

/-- Puts a name into its slot, which must be there and free. -/
def place (n : Nat) (slots : List (Option Text)) (entry : Text × Int) :
    Except BuildError (List (Option Text)) :=
  if 0 ≤ entry.2 ∧ slots[entry.2.toNat]? = some none then
    .ok (slots.set entry.2.toNat (some entry.1))
  else .error (.notBijective n (.str entry.1) (.int entry.2))

/-- The names of a table in the order of their indices, which must be `0, …, n - 1`. -/
def namesByIndex (table : List (Text × Int)) : Except BuildError (List Text) :=
  (table.foldlM (place table.length) (List.replicate table.length none)).map fun slots =>
    slots.map (·.getD [])

/-- Checks that the attacks are between `n` arguments. -/
def checkRange (n : Nat) (attacks : List Attack) : Except BuildError Unit :=
  match attacks.find? fun a => !a.isWithin n with
  | some a => .error (.outsideRange n a)
  | none => .ok ()

/-- The framework of a table that gives every name an index. -/
def ofNamed (table : List (Text × Int)) (attacks : List Attack) :
    Except BuildError Framework := do
  let names ← namesByIndex table
  checkRange table.length attacks
  return ⟨table.length, attacks, some names⟩

/-! ## From a list of names -/

/-- The members of a list in the order in which they first come. -/
def firstSeen : List Text → List Text
  | [] => []
  | x :: rest => x :: (firstSeen rest).filter (· ≠ x)

/-- The members are those of the list. -/
@[simp] theorem mem_firstSeen {x : Text} {names : List Text} :
    x ∈ firstSeen names ↔ x ∈ names := by
  induction names with
  | nil => simp [firstSeen]
  | cons y rest ih => by_cases h : x = y <;> simp [firstSeen, ih, h]

/-- No member is repeated. -/
theorem nodup_firstSeen (names : List Text) : (firstSeen names).Nodup := by
  induction names with
  | nil => simp [firstSeen]
  | cons x rest ih =>
    rw [firstSeen, List.nodup_cons]
    exact ⟨by simp, ih.filter _⟩

/-- The table that numbers the names in the order in which they first come. -/
def tableOf (names : List Text) : List (Text × Int) :=
  (firstSeen names).zipIdx.map fun p => (p.1, (p.2 : Int))

/-- The index of a name in a table. -/
def indexOf (table : List (Text × Int)) (name : Text) : Except BuildError Int :=
  match Assoc.get? table name with
  | some i => .ok i
  | none => .error (.unknownName (.str name))

/-- The attack between two names. -/
def attackOf (table : List (Text × Int)) (pair : Text × Text) : Except BuildError Attack := do
  let origin ← indexOf table pair.1
  let target ← indexOf table pair.2
  return ⟨origin, target⟩

/-- The framework of a list of names, with attacks given by name. -/
def ofNames (names : List Text) (pairs : List (Text × Text)) :
    Except BuildError Framework := do
  let table := tableOf names
  let attacks ← pairs.mapM (attackOf table)
  ofNamed table attacks

/-! ## From values -/

/-- The two parts of a value. -/
def partsOf (v : Json) : Except BuildError (Json × Json) := v.toPair.mapError .pair

/-- The attack whose ends two values stand for. -/
def attackOfEnds (ends : Json × Json) : Except BuildError Attack := do
  let origin ← ends.1.toInteger.mapError .number
  let target ← ends.2.toInteger.mapError .number
  return ⟨origin, target⟩

/-- The attack that a value stands for. -/
def attackOfValue (v : Json) : Except BuildError Attack := do
  let ends ← partsOf v
  attackOfEnds ends

/-- The items of a value. -/
def itemsOf (v : Json) : Except BuildError (List Json) := v.items.mapError .misuse

/-- `ofAttacks` for attacks given as values; together, they are all taken apart before any is looked
at. -/
def ofAttackValues (together : Bool) (attacks : Json) : Except BuildError Framework := do
  let attacks ← itemsOf attacks
  if together then
    let ends ← attacks.mapM partsOf
    return ofAttacks (← ends.mapM attackOfEnds)
  else return ofAttacks (← attacks.mapM attackOfValue)

/-- `ofNamed` for attacks given as values; the table is looked at first. -/
def ofNamedValues (table : List (Text × Int)) (attacks : Json) : Except BuildError Framework := do
  let names ← namesByIndex table
  let attacks ← itemsOf attacks
  let attacks ← attacks.mapM attackOfValue
  checkRange table.length attacks
  return ⟨table.length, attacks, some names⟩

/-- The index of the name that a value is. A value of another kind is no name in any table, and
lists and objects are not even looked up. -/
def indexOfValue (table : List (Text × Int)) (v : Json) : Except BuildError Int := do
  match ← v.key.mapError .misuse with
  | .str name => indexOf table name
  | v => throw (.unknownName v)

/-- The attack between the two names that a value has as its parts. -/
def attackOfNamesValue (table : List (Text × Int)) (v : Json) : Except BuildError Attack := do
  let (a, b) ← partsOf v
  let origin ← indexOfValue table a
  let target ← indexOfValue table b
  return ⟨origin, target⟩

/-- `ofNames` for attacks given as values. -/
def ofNamesValues (names : List Text) (pairs : Json) : Except BuildError Framework := do
  let table := tableOf names
  let pairs ← itemsOf pairs
  let attacks ← pairs.mapM (attackOfNamesValue table)
  ofNamed table attacks

end Dialectic.Framework
