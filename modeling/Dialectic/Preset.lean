import Dialectic.Apx.Reader

/-!
# Example frameworks

Four small frameworks in APX text.
-/

namespace Dialectic

/-- A named example in APX text. -/
structure Preset where
  /-- The name of the example. -/
  name : String
  /-- What it shows. -/
  description : String
  /-- Its text. -/
  apx : String
  deriving DecidableEq, Repr

namespace Preset

/-- The lines of some arguments and of some attacks between them, each line ended. -/
def text (names : List String) (attacks : List (String × String)) : String :=
  String.join (names.map fun n => "arg(" ++ n ++ ").\n") ++
    String.join (attacks.map fun a => "att(" ++ a.1 ++ "," ++ a.2 ++ ").\n")

/-- The attacks of the largest example, by the numbers of its arguments. -/
def randomAttacks : List (Nat × Nat) :=
  [(4, 18), (8, 7), (11, 21), (4, 15), (6, 15), (17, 9), (12, 3), (2, 17), (21, 27), (16, 13),
   (6, 0), (25, 25), (26, 12), (6, 22), (14, 14), (23, 17), (28, 4), (28, 25), (17, 15),
   (12, 6), (10, 6), (20, 23), (23, 2), (23, 13), (8, 21), (1, 17), (20, 12), (4, 12), (15, 2),
   (11, 2), (9, 20), (28, 13), (18, 23), (26, 18), (13, 24), (26, 0), (19, 9), (4, 25),
   (18, 14), (6, 9), (15, 25), (13, 6), (6, 14), (19, 25), (1, 14)]

/-- The examples. -/
def all : List Preset :=
  [⟨"chain", "a attacks b, b attacks c: a reinstates c.",
      text ["a", "b", "c"] [("a", "b"), ("b", "c")]⟩,
   ⟨"two-cycles", "Two independent mutual attacks: four complete choices.",
      text ["a", "b", "c", "d"] [("a", "b"), ("b", "a"), ("c", "d"), ("d", "c")]⟩,
   ⟨"mixed-8", "Eight arguments with chains and an odd cycle.",
      text ["A", "B", "C", "D", "E", "F", "G", "H"]
        [("B", "H"), ("C", "A"), ("G", "A"), ("D", "E"), ("H", "D"), ("E", "B"), ("C", "F")]⟩,
   ⟨"random-30", "Thirty arguments, random attacks including self-attacks.",
      text ((List.range 30).map fun i => "A" ++ toString i)
        (randomAttacks.map fun a => ("A" ++ toString a.1, "A" ++ toString a.2))⟩]

/-- The framework of an example. -/
def framework (p : Preset) : Except Apx.ReadError Framework :=
  (Apx.read true p.apx).map Apx.Report.framework

end Preset

/-- Why there is no example. -/
inductive PresetError where
  /-- The number is not of the kind that is needed. -/
  | misuse (e : Json.Misuse)
  /-- The number is no position. -/
  | index (e : IndexError)
  /-- No example has the number. -/
  | unknown (index : Json)
  /-- The number, which no example has, is too long to be written. -/
  | size (e : Integer.SizeError)
  deriving Repr

/-- What the error says. -/
def PresetError.message : PresetError → Text
  | .misuse e => e.message
  | .index e => e.message
  | .unknown i =>
    Text.ofString "No preset " ++ ((i.plain.toOption).getD []) ++
      Text.ofString ("; " ++ toString Preset.all.length ++ " available")
  | .size e => e.message

namespace Preset

/-- The error that no example has a number. -/
def unknown (i : Json) : PresetError :=
  match i.plain with
  | .ok _ => .unknown i
  | .error e => .size e

/-- The example of a number, counted from zero. -/
def get (i : Int) : Except PresetError Preset :=
  if i < 0 then .error (unknown (.int i))
  else
    match Preset.all[i.toNat]? with
    | some p => .ok p
    | none => .error (unknown (.int i))

/-- The example of the number that a value is. -/
def ofJson (v : Json) : Except PresetError Preset := do
  if !(← (v.isWithin Preset.all.length).mapError .misuse) then throw (unknown v)
  get (← (Index.ofJson .list v).mapError .index)

end Preset

end Dialectic
