import Dialectic.Text.Basic
import Dialectic.Text.Printable

/-!
# Quoted texts

How a text is shown inside a message. Single quotes stand around it, unless it has a single quote
and no double quote; then double quotes do. The backslash, the quote in use and the unprintable
characters are escaped, and so are surrogates.
-/

namespace Dialectic.Text

/-- The digits of a number in base sixteen, in lower case, with zeros in front up to a width. -/
def hex (width n : Nat) : List Char :=
  let ds := Nat.toDigits 16 n
  List.replicate (width - ds.length) '0' ++ ds

/-- The quote that stands around a text. -/
def quoteMark (t : Text) : Char :=
  if .char '\'' ∈ t ∧ .char '"' ∉ t then '"' else '\''

/-- One character between quotes of the given kind. -/
def quoteChar (mark c : Char) : List Char :=
  if c = mark ∨ c = '\\' then ['\\', c]
  else if c = '\n' then ['\\', 'n']
  else if c = '\r' then ['\\', 'r']
  else if c = '\t' then ['\\', 't']
  else if isPrintable c then [c]
  else if c.toNat < 0x100 then '\\' :: 'x' :: hex 2 c.toNat
  else if c.toNat < 0x10000 then '\\' :: 'u' :: hex 4 c.toNat
  else '\\' :: 'U' :: hex 8 c.toNat

/-- One code point between quotes of the given kind. -/
def quotePoint (mark : Char) : CodePoint → List Char
  | .char c => quoteChar mark c
  | .surrogate u => '\\' :: 'u' :: hex 4 (0xd800 + u.val)

/-- A text in quotes. -/
def quote (t : Text) : String :=
  let mark := quoteMark t
  String.ofList (mark :: t.flatMap (quotePoint mark) ++ [mark])

end Dialectic.Text
