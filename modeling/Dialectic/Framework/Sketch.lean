import Dialectic.Framework.Build
import Dialectic.Json.Lookup

/-!
# Sketches of frameworks

A sketch has the parts of a framework, but they may be any values: nothing was checked when it was
made. What can be asked of a framework can be asked of a sketch, and an answer fails where a value
does not serve. A sketch whose size and ends are positions is settled into a framework with the same
labellings.
-/

namespace Dialectic

/-- A framework of any values. -/
structure Sketch where
  /-- What stands for the number of arguments. -/
  size : Json
  /-- The two ends of every attack. -/
  attacks : List (Json × Json)
  /-- The names of the arguments, if they have names. -/
  names : Option (List Json)
  deriving Repr

namespace Sketch

/-- Why a sketch does not answer. -/
inductive Error where
  /-- A value is not of the kind that is needed. -/
  | misuse (e : Json.Misuse)
  /-- An end of an attack is no position. -/
  | index (e : IndexError)
  /-- A number is too long to be written. -/
  | size (e : Integer.SizeError)
  deriving DecidableEq, Repr

/-- What the error says. -/
def Error.message : Error → String
  | .misuse e => e.message
  | .index e => e.message
  | .size e => e.message

/-! ## Sketches and frameworks -/

/-- A framework as a sketch. -/
def ofFramework (f : Framework) : Sketch :=
  ⟨.int f.size, f.attacks.map fun a => (.int a.origin, .int a.target), f.names.map (·.map .str)⟩

/-- The attack between two integers. -/
def attack? : Json × Json → Option Attack
  | (.int o, .int t) => some ⟨o, t⟩
  | _ => none

/-- The text that a value is. -/
def name? : Json → Option Text
  | .str t => some t
  | _ => none

/-- The framework that a sketch is, if its numbers are integers and its names texts. -/
def framework? (s : Sketch) : Option Framework := do
  let .int n := s.size | none
  let attacks ← s.attacks.mapM attack?
  let names ←
    match s.names with
    | none => some none
    | some names => (names.mapM name?).map some
  return ⟨n, attacks, names⟩

/-- Whether two sketches have equal sizes and equal attacks; names do not matter. -/
def same (s t : Sketch) : Bool :=
  s.size.isSame t.size && s.attacks.length == t.attacks.length &&
    (s.attacks.zip t.attacks).all fun p => p.1.1.isSame p.2.1 && p.1.2.isSame p.2.2

/-! ## Queries -/

/-- The number of arguments. -/
def count (s : Sketch) : Except Error Int := s.size.count.mapError .misuse

/-- The names of the arguments, or their numbers if they have none. -/
def displayNames (s : Sketch) : Except Error (List Json) :=
  match s.names with
  | some names => .ok names
  | none => s.count.map fun n => (List.range n.toNat).map fun i => .str (toString i)

/-- The origins of the attacks on what equals a value. -/
def attackersOf (s : Sketch) (v : Json) : List Json :=
  (s.attacks.filter fun a => a.2.isEqual v).map (·.1)

/-- The place that the target of an attack means among the arguments. -/
def targetPlace (n : Int) (v : Json) : Except Error Nat :=
  (Index.ofJson .list v >>= Index.place .list n.toNat).mapError .index

/-- The place that the origin of an attack means among the arguments. -/
def originPlace (n : Int) (v : Json) : Except Error Nat :=
  (Index.ofJson .tuple v >>= Index.place .tuple n.toNat).mapError .index

/-- The attackers of every argument, in the order of the arguments. -/
def attackerIndex (s : Sketch) : Except Error (List (List Json)) := do
  let n ← s.count
  s.attacks.foldlM (fun rows a => do
    let p ← targetPlace n a.2
    return rows.modify p (· ++ [a.1])) (List.replicate n.toNat [])

/-- The name of the argument at the position that a value is, if the arguments have names. -/
def nameAt (s : Sketch) (v : Json) : Except Error (Option Json) :=
  match s.names with
  | none => .ok none
  | some names => ((Index.ofJson .tuple v >>= Index.get .tuple names).map some).mapError .index

/-- A short hash of the size and the attacks. -/
def fingerprint (s : Sketch) : Except Error String := do
  let size ← s.size.plain.mapError .size
  let attacks ← s.attacks.mapM fun a => do
    let origin ← a.1.plain.mapError .size
    let target ← a.2.plain.mapError .size
    return origin ++ .char '>' :: target
  let text := size ++ .char ':' :: List.intercalate [.char ','] attacks
  return "sha256:" ++ Digest.short (text.chars?.getD [])

/-- The sketch as a JSON value: names, attacks, fingerprint and counts. -/
def summary (s : Sketch) : Except Error Json := do
  let names ← s.displayNames
  let fingerprint ← s.fingerprint
  return .obj
    [("arguments", .arr names),
     ("attacks", .arr (s.attacks.map fun a => .arr [a.1, a.2])),
     ("framework_hash", .str fingerprint),
     ("stats", .obj [("num_arguments", s.size), ("num_attacks", .int s.attacks.length)])]

/-! ## Settling -/

/-- Checks that a value can be added to a number, and gives the number of arguments to make
variables for. -/
def variableCount (v : Json) : Except Error Int :=
  if v.isNumber then v.count.mapError .misuse
  else .error (.misuse (.addition "int" v.kind))

/-- The framework with the same labellings: the places that the ends of the attacks mean. The
targets are looked at first, in the order of the attacks, and then the origins, target by target. -/
def settle (s : Sketch) : Except Error Framework := do
  let n ← variableCount s.size
  let targets ← s.attacks.mapM fun a => targetPlace n a.2
  let byTarget := ((s.attacks.map (·.1)).zip targets).mergeSort fun a b => a.2 ≤ b.2
  let attacks ← byTarget.mapM fun p => do
    let origin ← originPlace n p.1
    return ⟨origin, p.2⟩
  return ⟨n, attacks, none⟩

/-! ## Building -/

/-- Puts a value under another, which must be a key. -/
def enter (table : List (Json × Json)) (entry : Json × Json) :
    Except Framework.BuildError (List (Json × Json)) := do
  let key ← entry.1.key.mapError .misuse
  return Json.enter table key entry.2

/-- Puts a name into its slot, which must be there and free; what is `null` is free. -/
def place (n : Nat) (slots : List Json) (entry : Json × Json) :
    Except Framework.BuildError (List Json) := do
  let error := Framework.BuildError.notBijective n entry.1 entry.2
  if !(← (entry.2.isWithin n).mapError .misuse) then throw error
  let i ← (Index.ofJson .list entry.2).mapError .index
  match slots[i.toNat]? with
  | some .null => return slots.set i.toNat entry.1
  | _ => throw error

/-- The sketch of a table that gives every name an index. -/
def ofTable (table : List (Json × Json)) (attacks : Json) : Except Framework.BuildError Sketch := do
  let table ← table.foldlM enter []
  let n := table.length
  let names ← table.foldlM (place n) (List.replicate n .null)
  let attacks ← Framework.itemsOf attacks
  let attacks ← attacks.mapM Framework.attackOfValue
  Framework.checkRange n attacks
  return { ofFramework ⟨n, attacks, none⟩ with names := some names }

/-- The members of a list in the order in which they first come. -/
def firstSeen (names : List Json) : Except Framework.BuildError (List Json) :=
  names.foldlM (fun seen name => do
    let name ← name.key.mapError .misuse
    return if seen.any (·.isSame name) then seen else seen ++ [name]) []

/-- The place of a name in a list of names. -/
def indexOf (names : List Json) (name : Json) : Except Framework.BuildError Int := do
  let name ← name.key.mapError .misuse
  match names.findIdx? (·.isSame name) with
  | some i => return i
  | none => throw (.unknownName name)

/-- The sketch of a list of names, with attacks given by name. -/
def ofNames (names : List Json) (pairs : Json) : Except Framework.BuildError Sketch := do
  let names ← firstSeen names
  let pairs ← Framework.itemsOf pairs
  let attacks ← pairs.mapM fun v => do
    let (a, b) ← Framework.partsOf v
    let origin ← indexOf names a
    let target ← indexOf names b
    return ⟨origin, target⟩
  return { ofFramework ⟨names.length, attacks, none⟩ with names := some names }

/-- The sketch of parts that are taken as they are. -/
def ofParts (size attacks names : Json) : Except Framework.BuildError Sketch := do
  let attacks ← Framework.itemsOf attacks
  let attacks ← attacks.mapM Framework.partsOf
  match names with
  | .null => return ⟨size, attacks, none⟩
  | names => return ⟨size, attacks, some (← Framework.itemsOf names)⟩

end Sketch

end Dialectic
