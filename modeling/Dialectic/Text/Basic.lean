/-!
# Texts

A text is a list of code points. A code point is a character or a surrogate: half of a pair of
sixteen-bit units that stands for no character by itself, but may be left over where texts are
written with such units.
-/

namespace Dialectic

/-! ## Units -/

/-- Whether a sixteen-bit unit is the first of a pair. -/
def Text.isHighUnit (n : Nat) : Bool := 0xd800 ≤ n && n < 0xdc00

/-- Whether a sixteen-bit unit is the second of a pair. -/
def Text.isLowUnit (n : Nat) : Bool := 0xdc00 ≤ n && n < 0xe000

/-! ## Code points -/

/-- A code point: a character, or a surrogate, given by its distance from the first one. -/
inductive CodePoint where
  /-- A character. -/
  | char (c : Char)
  /-- A surrogate. -/
  | surrogate (offset : Fin 2048)
  deriving DecidableEq, Repr

namespace CodePoint

/-- The number of a code point. -/
def toNat : CodePoint → Nat
  | .char c => c.toNat
  | .surrogate u => 0xd800 + u.val

/-- The code point of a number. -/
def ofNat (n : Nat) : CodePoint :=
  if 0xd800 ≤ n ∧ n < 0xe000 then .surrogate (Fin.ofNat 2048 (n - 0xd800)) else .char (Char.ofNat n)

/-- The character of a pair of sixteen-bit units. -/
def ofPair (hi lo : Nat) : CodePoint :=
  .char (Char.ofNat (0x10000 + (hi - 0xd800) * 1024 + (lo - 0xdc00)))

/-- Whether a code point is a character of a class. No surrogate is. -/
def is (p : Char → Bool) : CodePoint → Bool
  | .char c => p c
  | .surrogate _ => false

@[simp] theorem is_char (p : Char → Bool) (c : Char) : (char c).is p = p c := rfl

@[simp] theorem is_surrogate (p : Char → Bool) (u : Fin 2048) : (surrogate u).is p = false := rfl

/-- The character that a code point is. -/
def char? : CodePoint → Option Char
  | .char c => some c
  | .surrogate _ => none

@[simp] theorem char?_char (c : Char) : (char c).char? = some c := rfl

end CodePoint

/-! ## Texts -/

/-- A text: its code points in order. -/
abbrev Text := List CodePoint

namespace Text

/-- Texts are compared as lists of code points are. -/
instance instLawfulBEq : LawfulBEq Text := List.instLawfulBEq

/-- The text of some characters. -/
def ofChars (cs : List Char) : Text := cs.map .char

/-- The text of a string. -/
def ofString (s : String) : Text := ofChars s.toList

instance : Coe String Text := ⟨ofString⟩

/-- The characters of a text, if it has no surrogates. -/
def chars? (t : Text) : Option (List Char) := t.mapM CodePoint.char?

/-- Whether a text consists of characters. -/
def isProper (t : Text) : Bool := t.chars?.isSome

/-- The string of a text, if it has no surrogates. -/
def toString? (t : Text) : Option String := t.chars?.map String.ofList

@[simp] theorem ofChars_nil : ofChars [] = [] := rfl

@[simp] theorem ofChars_cons (c : Char) (cs : List Char) :
    ofChars (c :: cs) = .char c :: ofChars cs := rfl

@[simp] theorem ofChars_append (cs ds : List Char) :
    ofChars (cs ++ ds) = ofChars cs ++ ofChars ds := by
  simp [ofChars]

/-- The characters that a text is made of are found again. -/
@[simp] theorem chars?_ofChars (cs : List Char) : chars? (ofChars cs) = some cs := by
  induction cs with
  | nil => rfl
  | cons c cs ih =>
    rw [chars?] at ih
    simp [chars?, ih]

@[simp] theorem isProper_ofChars (cs : List Char) : isProper (ofChars cs) = true := by
  simp [isProper]

/-- The string that a text is made of is found again. -/
@[simp] theorem toString?_ofString (s : String) : toString? (ofString s) = some s := by
  simp [toString?, ofString]

/-- Different characters make different texts. -/
theorem ofChars_injective {cs ds : List Char} (h : ofChars cs = ofChars ds) : cs = ds := by
  have := congrArg chars? h
  simpa using this

/-- Different strings make different texts. -/
theorem ofString_injective {s t : String} (h : ofString s = ofString t) : s = t := by
  have := congrArg toString? h
  simpa using this

/-! ## Order -/

/-- Whether a text comes before another or is equal to it, code point by code point. -/
def le : Text → Text → Bool
  | [], _ => true
  | _ :: _, [] => false
  | a :: s, b :: t => if a = b then le s t else decide (a.toNat < b.toNat)

end Text

end Dialectic
