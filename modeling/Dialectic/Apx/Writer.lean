import Dialectic.Apx.Line
import Dialectic.Framework.Any

/-!
# Writing APX text

A framework is written with one line for every argument and then one line for every attack. A
framework without names is written with the numbers of its arguments as names.
-/

namespace Dialectic.Apx

/-- Why a framework cannot be written. -/
inductive WriteError where
  /-- A name that would not be read back as it is. -/
  | badName (name : Text)
  /-- An attack leaves the framework. -/
  | index (e : IndexError)
  /-- A sketch has a value that cannot be written. -/
  | sketch (e : Sketch.Error)
  deriving DecidableEq, Repr

/-- What the error says. -/
def WriteError.message : WriteError → String
  | .badName name => "Argument name " ++ Text.quote name ++ " cannot be written as APX"
  | .index e => e.message
  | .sketch e => e.message

/-- The characters that no written name has. -/
def isReserved (c : Char) : Bool :=
  c == ',' || c == '(' || c == ')' || c == '\r' || c == '\n'

/-- Whether a name can be written: it has no blanks around it, is one line, and has no reserved
character. -/
def isWritable (name : Text) : Bool :=
  Text.trim name == name && (Text.lines name).length == 1 && !name.any (·.is isReserved)

/-- The line of an argument. -/
def argLine (name : Text) : Text := Text.ofString "arg(" ++ name ++ Text.ofString ")."

/-- The line of an attack. -/
def attLine (origin target : Text) : Text :=
  Text.ofString "att(" ++ origin ++ .char ',' :: target ++ Text.ofString ")."

/-- The line of an attack between named arguments. -/
def attackLine (names : List Text) (a : Attack) : Except WriteError Text := do
  let origin ← (Index.get .list names a.origin).mapError .index
  let target ← (Index.get .list names a.target).mapError .index
  return attLine origin target

/-- Writes a framework. -/
def write (f : Framework) : Except WriteError Text := do
  let names := f.displayNames
  match names.find? fun n => !isWritable n with
  | some n => throw (.badName n)
  | none =>
    let attacks ← f.attacks.mapM (attackLine names)
    return List.intercalate [.char '\n'] (names.map argLine ++ attacks) ++ [.char '\n']

/-- The name that a value is, if it can be written. -/
def writableName (v : Json) : Except WriteError Text :=
  match v with
  | .str name => if isWritable name then .ok name else .error (.badName name)
  | v => .error (.sketch (.misuse (.feature v.kind "strip")))

/-- The name that an end of an attack means. -/
def endName (names : List Text) (v : Json) : Except WriteError Text :=
  (Index.ofJson .list v >>= Index.get .list names).mapError .index

/-- Writes a framework or a sketch. -/
def writeAny : AnyFramework → Except WriteError Text
  | .settled f => write f
  | .sketch s => do
    let values ← s.displayNames.mapError .sketch
    let names ← values.mapM writableName
    let attacks ← s.attacks.mapM fun a => do
      let origin ← endName names a.1
      let target ← endName names a.2
      return attLine origin target
    return List.intercalate [.char '\n'] (names.map argLine ++ attacks) ++ [.char '\n']

end Dialectic.Apx
