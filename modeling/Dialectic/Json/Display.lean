import Dialectic.Json.Printer
import Dialectic.Number.Integer

/-!
# JSON values in messages

How a value is shown inside a message: texts are quoted as messages quote them, and the words for
truth values, for `null` and for numbers that are infinite or undefined are those of messages.
-/

namespace Dialectic

/-- The layout of numbers in messages. -/
def FloatLayout.message : FloatLayout :=
  { FloatLayout.standard with nan := "nan", infinity := "inf" }

namespace Json

mutual

/-- A value as a message shows it. -/
def shown : Json → List Char
  | .null => ['N', 'o', 'n', 'e']
  | .bool true => ['T', 'r', 'u', 'e']
  | .bool false => ['F', 'a', 'l', 's', 'e']
  | .int n => (toString n).toList
  | .float x => FloatLayout.message.write x
  | .str t => (Text.quote t).toList
  | .arr items => '[' :: commaSeparated (shownItems items) ++ [']']
  | .obj fields => '{' :: commaSeparated (shownFields fields) ++ ['}']

/-- The items of a list as a message shows them. -/
def shownItems : List Json → List (List Char)
  | [] => []
  | v :: rest => shown v :: shownItems rest

/-- The fields of an object as a message shows them. -/
def shownFields : List (Text × Json) → List (List Char)
  | [] => []
  | (k, v) :: rest =>
    ((Text.quote k).toList ++ ':' :: ' ' :: shown v) :: shownFields rest

end

/-- A value as a message shows it, as a string. -/
def display (v : Json) : String := String.ofList (shown v)

/-- A value as it stands inside a sentence: like in a message, but texts without quotes. -/
def plain : Json → Except Integer.SizeError Text
  | .int n => (Integer.write n).map Text.ofChars
  | .str t => .ok t
  | v => .ok v.display

end Json

end Dialectic
