import Dialectic.Digest
import Dialectic.Index
import Dialectic.Json.Convert

/-!
# Argumentation frameworks

An argumentation framework has the arguments `0, …, size - 1` and a list of attacks between them. A
framework is plain data: that its attacks stay among its arguments is the separate property
`WellFormed`, and positions are looked up with `Index`, so that a number may also count from the
back.
-/

namespace Dialectic

/-- An attack of one argument on another. -/
structure Attack where
  /-- The argument that attacks. -/
  origin : Int
  /-- The argument that is attacked. -/
  target : Int
  deriving DecidableEq, Repr

/-- Whether both ends of an attack are among the arguments `0, …, n - 1`. -/
def Attack.isWithin (a : Attack) (n : Int) : Bool :=
  decide (0 ≤ a.origin ∧ a.origin < n ∧ 0 ≤ a.target ∧ a.target < n)

/-- An attack is within a framework if both its ends are. -/
theorem Attack.isWithin_iff {a : Attack} {n : Int} :
    a.isWithin n ↔ (0 ≤ a.origin ∧ a.origin < n) ∧ 0 ≤ a.target ∧ a.target < n := by
  rw [Attack.isWithin, decide_eq_true_iff, and_assoc]

/-- An argumentation framework. -/
structure Framework where
  /-- The number of arguments. -/
  size : Int
  /-- The attacks, in the order in which they were given. -/
  attacks : List Attack
  /-- The names of the arguments, if they have names. -/
  names : Option (List Text)
  deriving DecidableEq, Repr

namespace Framework

/-! ## Well-formedness and equality -/

/-- The size is a number of arguments and the attacks are between the arguments. -/
def WellFormed (f : Framework) : Prop := 0 ≤ f.size ∧ ∀ a ∈ f.attacks, a.isWithin f.size

instance (f : Framework) : Decidable f.WellFormed := by
  unfold WellFormed
  infer_instance

/-- Whether two frameworks have the same size and the same attacks; names do not matter. -/
def same (f g : Framework) : Bool := f.size == g.size && f.attacks == g.attacks

/-- Frameworks are the same if they have as many arguments and the same attacks. -/
theorem same_iff {f g : Framework} : f.same g ↔ f.size = g.size ∧ f.attacks = g.attacks := by
  simp [same]

/-! ## Attackers -/

/-- The attackers of an argument, one for every attack. -/
def attackersOf (f : Framework) (i : Int) : List Int :=
  (f.attacks.filter fun a => a.target = i).map (·.origin)

/-- An argument is an attacker exactly if there is an attack that says so. -/
theorem mem_attackersOf {f : Framework} {i j : Int} :
    j ∈ f.attackersOf i ↔ (⟨j, i⟩ : Attack) ∈ f.attacks := by
  simp only [attackersOf, List.mem_map, List.mem_filter, decide_eq_true_eq]
  constructor
  · rintro ⟨a, ⟨ha, rfl⟩, rfl⟩
    exact ha
  · intro h
    exact ⟨_, ⟨h, rfl⟩, rfl⟩

/-- The attackers of the argument whose number a value equals; a value that equals no integer has
none. -/
def attackersOfValue (f : Framework) (v : Json) : List Int :=
  (v.equalInteger?.map f.attackersOf).getD []

/-- Enters an attack into the table of attackers. -/
def enter (rows : Array (Array Int)) (a : Attack) : Except IndexError (Array (Array Int)) := do
  let p ← Index.place .list rows.size a.target
  return rows.modify p (·.push a.origin)

/-- The attackers of every argument, in the order of the arguments. -/
def attackerIndex (f : Framework) : Except IndexError (List (List Int)) :=
  (f.attacks.foldlM enter (Array.replicate f.size.toNat #[])).map fun rows =>
    (rows.map Array.toList).toList

/-! ## Names -/

/-- The name of an argument, if the arguments have names. -/
def nameOf (f : Framework) (i : Int) : Except IndexError (Option Text) :=
  match f.names with
  | none => .ok none
  | some names => (Index.get .tuple names i).map some

/-- The name of the argument at the position that a value is, if the arguments have names. -/
def nameAt (f : Framework) (v : Json) : Except IndexError (Option Text) :=
  if f.names.isNone then .ok none else Index.ofJson .tuple v >>= f.nameOf

/-- The names of the arguments, or their numbers if they have none. -/
def displayNames (f : Framework) : List Text :=
  match f.names with
  | some names => names
  | none => (List.range f.size.toNat).map fun i => Text.ofString (toString i)

/-! ## Identity -/

/-- An attack as the fingerprint writes it. -/
def attackText (a : Attack) : Except Integer.SizeError (List Char) := do
  let origin ← Integer.write a.origin
  let target ← Integer.write a.target
  return origin ++ '>' :: target

/-- The text that the fingerprint is taken of: the size, a colon, and the attacks with commas
between them. -/
def identityText (f : Framework) : Except Integer.SizeError (List Char) := do
  let size ← Integer.write f.size
  let attacks ← f.attacks.mapM attackText
  return size ++ ':' :: List.intercalate [','] attacks

/-- A short hash of the size and the attacks. -/
def fingerprint (f : Framework) : Except Integer.SizeError String :=
  f.identityText.map fun text => "sha256:" ++ Digest.short text

/-- The framework as a JSON value with the given fingerprint: names, attacks, fingerprint and
counts. -/
def summaryWith (f : Framework) (fingerprint : String) : Json :=
  .obj
    [("arguments", .arr (f.displayNames.map .str)),
     ("attacks", .arr (f.attacks.map fun a => .arr [.int a.origin, .int a.target])),
     ("framework_hash", .str fingerprint),
     ("stats", .obj
       [("num_arguments", .int f.size),
        ("num_attacks", .int f.attacks.length)])]

/-- The framework as a JSON value. -/
def summary (f : Framework) : Except Integer.SizeError Json := f.fingerprint.map f.summaryWith

end Framework

end Dialectic
