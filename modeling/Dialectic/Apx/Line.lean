import Dialectic.Text.Blank
import Dialectic.Text.Line
import Dialectic.Text.Word

/-!
# Lines of APX text

An APX text declares arguments and attacks, one statement a line: `arg(a).` and `att(a,b).`, where
the full stop may be missing and blanks may stand around the names, before the opening parenthesis
and after the closing one. Empty lines and lines that begin with `#` or `%` say nothing.
-/

namespace Dialectic.Apx

/-! ## Reasons -/

/-- Why a line declares nothing. -/
inductive Reason where
  /-- It has not the form of a statement. -/
  | notStatement
  /-- An argument is declared by one name. -/
  | argArity
  /-- An attack is declared by two names. -/
  | attArity
  /-- The statement is neither about an argument nor about an attack. -/
  | unknownPredicate (predicate : Text)
  /-- An attack has names that no line declares. -/
  | undeclared (names : List Text)
  deriving DecidableEq, Repr

/-- What the reason says. -/
def Reason.message : Reason → Text
  | .notStatement => "not a statement"
  | .argArity => "arg takes exactly one name"
  | .attArity => "att takes exactly two names"
  | .unknownPredicate p => Text.ofString "unknown predicate '" ++ p ++ Text.ofString "'"
  | .undeclared names =>
    Text.ofString "undeclared argument " ++ List.intercalate (Text.ofString ", ") names

/-! ## Statements -/

/-- What follows the body of a statement: blanks and perhaps a full stop. -/
def isEnding (t : Text) : Bool :=
  let rest := t.dropWhile (·.is Text.isBlank)
  rest == [] || rest == [.char '.']

/-- The code points of a body: all but parentheses. -/
def isBodyPoint (c : CodePoint) : Bool := c != .char '(' && c != .char ')'

/-- The predicate and the body of a statement. -/
def statement? (t : Text) : Option (Text × Text) :=
  match t with
  | [] => none
  | c :: rest =>
    if c.is Text.isWordStart then
      match (rest.dropWhile (·.is Text.isWord)).dropWhile (·.is Text.isBlank) with
      | .char '(' :: inner =>
        match inner.dropWhile isBodyPoint with
        | .char ')' :: ending =>
          if isEnding ending then
            some (c :: rest.takeWhile (·.is Text.isWord), inner.takeWhile isBodyPoint)
          else none
        | _ => none
      | _ => none
    else none

/-- The names in a body: what stands between the commas, without the blanks around it. -/
def namesOf (body : Text) : List Text := (Text.pieces (.char ',') body).map Text.trim

/-! ## Lines -/

/-- What a line says. -/
inductive Line where
  /-- Nothing. -/
  | silent
  /-- That there is an argument. -/
  | arg (name : Text)
  /-- That one argument attacks another. -/
  | att (origin target : Text)
  /-- Nothing that can be read. -/
  | bad (reason : Reason)
  deriving DecidableEq, Repr

/-- What a statement says. -/
def Line.ofStatement (predicate : Text) (names : List Text) : Line :=
  if predicate = [.char 'a', .char 'r', .char 'g'] then
    match names with
    | [name] => if name = [] then .bad .argArity else .arg name
    | _ => .bad .argArity
  else if predicate = [.char 'a', .char 't', .char 't'] then
    match names with
    | [origin, target] =>
      if origin = [] ∨ target = [] then .bad .attArity else .att origin target
    | _ => .bad .attArity
  else .bad (.unknownPredicate predicate)

/-- What a line without blanks around it says. -/
def Line.ofTrimmed (t : Text) : Line :=
  match t with
  | [] => .silent
  | c :: _ =>
    if c = .char '#' ∨ c = .char '%' then .silent
    else
      match statement? t with
      | some (predicate, body) => .ofStatement predicate (namesOf body)
      | none => .bad .notStatement

end Dialectic.Apx
