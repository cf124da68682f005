import Dialectic.Number.Integer
import Dialectic.Validation

/-!
# Integers and truth values in requests

What is accepted in place of an integer or a truth value. An integer may be a truth value, a float
without fraction, or a text: with white space around it, a sign, zeros in front, single underscores
between its ASCII digits, and a fraction of zeros.
-/

namespace Dialectic.Request

/-! ## Integers as text -/

/-- Whether a character is an ASCII digit other than zero. -/
def isNonZeroDigit (c : Char) : Bool := '1' ≤ c && c ≤ '9'

/-- What follows the zeros at the beginning of a number, among which underscores may stand. The
character before a point or before the end is kept; `last` is the character before. -/
def afterZeros? (last : Char) : List Char → Option (List Char)
  | [] => some [last]
  | c :: rest =>
    if c = '0' ∨ c = '_' then afterZeros? c rest
    else if isNonZeroDigit c || c == '-' then some (c :: rest)
    else if c = '.' then some (last :: c :: rest)
    else none

/-- A number without superfluous zeros at its beginning. -/
def stripZeros? : List Char → Option (List Char)
  | [] => none
  | c :: rest =>
    if c = '0' then afterZeros? c rest
    else if isNonZeroDigit c || c == '-' then some (c :: rest)
    else none

/-- A number without a fraction of zeros, of which there is at least one. -/
def dropFraction (cs : List Char) : List Char :=
  match cs.dropWhile (· != '.') with
  | _ :: d :: fraction =>
    if (d :: fraction).all (· == '0') then cs.takeWhile (· != '.') else cs
  | _ => cs

/-- A number without underscores, which may stand only between other characters, and singly. -/
def dropUnderscores? (cs : List Char) : Option (List Char) :=
  let runs := cs.splitBy fun a b => a == '_' && b == '_'
  if cs.head? = some '_' ∨ cs.getLast? = some '_' ∨ runs.any (fun r => 1 < r.length) then none
  else some (cs.filter (· != '_'))

/-- The value of plain digits without a zero in front. -/
def plainNatural? (cs : List Char) : Option Nat :=
  match cs with
  | [] => none
  | ['0'] => some 0
  | '0' :: _ => none
  | cs => (cs.mapM Text.asciiDigit?).map Text.ofDigits

/-- The value of plain digits with perhaps a minus sign in front. -/
def plainInteger? : List Char → Option Int
  | '-' :: rest => (plainNatural? rest).map fun n => -(n : Int)
  | cs => (plainNatural? cs).map fun n => (n : Int)

/-- A text without the plus sign at its beginning, after which no minus sign may stand. -/
def dropPlus? : List Char → Option (List Char)
  | '+' :: '-' :: _ => none
  | '+' :: rest => some rest
  | cs => some cs

/-- A number without its sign, put into plain form. -/
def unsigned? (cs : List Char) : Option (List Char) :=
  (stripZeros? cs).bind fun cs => dropUnderscores? (dropFraction cs)

/-- A text that writes a number, put into plain form: a minus sign and digits, if it is an
integer. -/
def plainForm? (cs : List Char) : Option (List Char) :=
  match dropPlus? (Text.trimBy Text.isWhite cs) with
  | none => none
  | some ('-' :: rest) => (unsigned? rest).map ('-' :: ·)
  | some cs => unsigned? cs

/-- The number of digits at the beginning of a text that does not begin with zero. -/
def leadingDigits : List Char → Nat
  | '0' :: _ => 0
  | cs => (cs.takeWhile fun c => '0' ≤ c && c ≤ '9').length

/-- The number of digits, after perhaps a minus sign, at the beginning of a text. -/
def digitCount : List Char → Nat
  | '-' :: rest => leadingDigits rest
  | cs => leadingDigits cs

/-- The greatest number of digits that are read as an integer. -/
def digitLimit : Nat := 4300

/-- The value of a text in plain form, if it has not too many digits. -/
def shortInteger? (cs : List Char) : Option Int :=
  if digitLimit < digitCount cs then none else plainInteger? cs

/-- The integer that a text writes, or what is wrong with it. The text is first read as it stands,
and put into plain form if that fails. Only a text that begins with too many digits as it stands is
called too long. -/
def integerOfText (path : List Place) (t : Text) : Validated Int :=
  match t.chars? with
  | none => .fault path .intParsing (.str t)
  | some cs =>
    if digitLimit < digitCount cs then .fault path .intParsingSize (.str t)
    else
      match plainInteger? cs <|> (plainForm? cs).bind shortInteger? with
      | some n => .ok n
      | none => .fault path .intParsing (.str t)

/-! ## Values -/

/-- Whether a number lies strictly within the limits of sixty-four bits with a sign. -/
def isWord (n : Int) : Bool := -9223372036854775808 < n && n < 9223372036854775808

/-- The integer that a value is accepted for. -/
def integer (path : List Place) : Json → Validated Int
  | .int n => .ok n
  | .bool b => .ok (if b then 1 else 0)
  | .float x =>
    if !x.isFinite then .fault path .finiteNumber (.float x)
    else
      match x.toInt? with
      | none => .fault path .intFromFloat (.float x)
      | some n => if isWord n then .ok n else .fault path .intParsingSize (.float x)
  | .str t => integerOfText path t
  | v => .fault path .intType v

/-- The texts that stand for a truth value, in lower case. -/
def truthTexts : List (String × Bool) :=
  [("0", false), ("off", false), ("f", false), ("false", false), ("n", false), ("no", false),
   ("1", true), ("on", true), ("t", true), ("true", true), ("y", true), ("yes", true)]

/-- The truth value that an integer is accepted for; `v` is the value that it was given as. -/
def truthOfInteger (path : List Place) (v : Json) (n : Int) : Validated Bool :=
  if n = 0 then .ok false
  else if n = 1 then .ok true
  else .fault path .boolParsing v

/-- The truth value that a value is accepted for. -/
def truth (path : List Place) : Json → Validated Bool
  | .bool b => .ok b
  | .int n =>
    if isWord n ∨ n = -9223372036854775808 then truthOfInteger path (.int n) n
    else .fault path .boolType (.int n)
  | .float x =>
    match x.toInt? with
    | some n =>
      if isWord n then truthOfInteger path (.float x) n else .fault path .boolType (.float x)
    | none => .fault path .boolType (.float x)
  | .str t =>
    match t.toString?.bind fun s => Assoc.get? truthTexts s.toLower with
    | some b => .ok b
    | none => .fault path .boolParsing (.str t)
  | v => .fault path .boolType v

/-- The text that a value is. -/
def text (path : List Place) : Json → Validated Text
  | .str t => .ok t
  | v => .fault path .stringType v

end Dialectic.Request
