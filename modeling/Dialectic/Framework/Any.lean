import Dialectic.Framework.Sketch

/-!
# Frameworks and sketches

Where a framework may come from anywhere, it is either a framework or only a sketch of one. Both are
asked the same.
-/

namespace Dialectic

/-- A framework, or a sketch of one that is none. -/
inductive AnyFramework where
  /-- A framework. -/
  | settled (f : Framework)
  /-- A sketch. -/
  | sketch (s : Sketch)
  deriving Repr

namespace AnyFramework

/-! ## Making one -/

/-- The framework that a sketch is, or the sketch. -/
def ofSketch (s : Sketch) : AnyFramework :=
  match s.framework? with
  | some f => .settled f
  | none => .sketch s

/-- The sketch, or the framework as one. -/
def toSketch : AnyFramework → Sketch
  | .settled f => .ofFramework f
  | .sketch s => s

/-- The framework of a list of names, with attacks given by name. -/
def ofNames (names pairs : Json) : Except Framework.BuildError AnyFramework := do
  let names ← Framework.itemsOf names
  match names.mapM Sketch.name? with
  | some texts => return .settled (← Framework.ofNamesValues texts pairs)
  | none => return .ofSketch (← Sketch.ofNames names pairs)

/-- The text and the integer that two values are. -/
def entry? : Json × Json → Option (Text × Int)
  | (.str t, .int n) => some (t, n)
  | _ => none

/-- The framework of a table that gives every name an index; of several indices of one name the last
counts. -/
def ofTable (table attacks : Json) : Except Framework.BuildError AnyFramework := do
  let table ← Framework.itemsOf table
  let table ← table.mapM Framework.partsOf
  match table.mapM entry? with
  | some entries => return .settled (← Framework.ofNamedValues (Assoc.ofList entries) attacks)
  | none => return .ofSketch (← Sketch.ofTable table attacks)

/-- The framework of attacks alone. -/
def ofAttacks (together : Bool) (attacks : Json) : Except Framework.BuildError AnyFramework :=
  (Framework.ofAttackValues together attacks).map .settled

/-- The framework of parts that are taken as they are. -/
def ofParts (size attacks names : Json) : Except Framework.BuildError AnyFramework :=
  (Sketch.ofParts size attacks names).map .ofSketch

/-! ## Queries -/

/-- The number of arguments. -/
def size : AnyFramework → Json
  | .settled f => .int f.size
  | .sketch s => s.size

/-- The attacks as pairs. -/
def attacks (g : AnyFramework) : List Json := g.toSketch.attacks.map fun a => .arr [a.1, a.2]

/-- The names, if there are any. -/
def names (g : AnyFramework) : Option (List Json) := g.toSketch.names

/-- Whether two frameworks have the same size and the same attacks; names do not matter. -/
def same : AnyFramework → AnyFramework → Bool
  | .settled f, .settled g => f.same g
  | g, h => g.toSketch.same h.toSketch

/-- The names of the arguments, or their numbers if they have none. -/
def displayNames : AnyFramework → Except Sketch.Error (List Json)
  | .settled f => .ok (f.displayNames.map .str)
  | .sketch s => s.displayNames

/-- The attackers of the argument that a value is. -/
def attackersOf (g : AnyFramework) (v : Json) : List Json :=
  match g with
  | .settled f => (f.attackersOfValue v).map .int
  | .sketch s => s.attackersOf v

/-- The attackers of every argument. -/
def attackerIndex : AnyFramework → Except Sketch.Error (List (List Json))
  | .settled f => (f.attackerIndex.mapError .index).map fun rows => rows.map (·.map .int)
  | .sketch s => s.attackerIndex

/-- The name of an argument, if the arguments have names. -/
def nameAt (g : AnyFramework) (v : Json) : Except Sketch.Error (Option Json) :=
  match g with
  | .settled f => ((f.nameAt v).mapError .index).map (·.map .str)
  | .sketch s => s.nameAt v

/-- A short hash of the size and the attacks. -/
def fingerprint : AnyFramework → Except Sketch.Error String
  | .settled f => f.fingerprint.mapError .size
  | .sketch s => s.fingerprint

/-- The framework as a JSON value. -/
def summary : AnyFramework → Except Sketch.Error Json
  | .settled f => f.summary.mapError .size
  | .sketch s => s.summary

/-- The framework, or the one that a sketch is settled into. -/
def settle : AnyFramework → Except Sketch.Error Framework
  | .settled f => .ok f
  | .sketch s => s.settle

end AnyFramework

end Dialectic
