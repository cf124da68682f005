import Dialectic.Text.Utf8

/-!
# Encoding forms

The encoding forms of Unicode, with units of one, two or four bytes, and how to tell from its first
bytes in which of them a text is written: by a byte order mark, or by where the first characters,
which are taken to be ASCII, leave bytes zero. Surrogates that are not paired are read as they are.
-/

namespace Dialectic.Text

/-! ## Forms -/

/-- The order of the bytes of a unit. -/
inductive ByteOrder where
  /-- The most significant byte comes first. -/
  | big
  /-- The least significant byte comes first. -/
  | little
  deriving DecidableEq, Repr

/-- An encoding form. -/
inductive Form where
  /-- Units of one byte. -/
  | utf8
  /-- Units of two bytes. -/
  | utf16 (order : ByteOrder)
  /-- Units of four bytes. -/
  | utf32 (order : ByteOrder)
  deriving DecidableEq, Repr

/-- The byte order marks. -/
def marks : List (List UInt8 × Form) :=
  [([0x00, 0x00, 0xfe, 0xff], .utf32 .big),
   ([0xff, 0xfe, 0x00, 0x00], .utf32 .little),
   ([0xfe, 0xff], .utf16 .big),
   ([0xff, 0xfe], .utf16 .little),
   ([0xef, 0xbb, 0xbf], .utf8)]

/-- The form of a text without a byte order mark. -/
def Form.guess : List UInt8 → Form
  | [a, b] => if a = 0 then .utf16 .big else if b = 0 then .utf16 .little else .utf8
  | a :: b :: c :: d :: _ =>
    if a = 0 then if b = 0 then .utf32 .big else .utf16 .big
    else if b = 0 then if c = 0 ∧ d = 0 then .utf32 .little else .utf16 .little
    else .utf8
  | _ => .utf8

/-! ## Reading -/

/-- The number of some bytes. -/
def numberOf (order : ByteOrder) (bytes : List UInt8) : Nat :=
  let bytes :=
    match order with
    | .big => bytes
    | .little => bytes.reverse
  bytes.foldl (fun n b => 256 * n + b.toNat) 0

/-- The numbers of units of two bytes. -/
def units16? (order : ByteOrder) : List UInt8 → Option (List Nat)
  | [] => some []
  | [_] => none
  | a :: b :: rest => (units16? order rest).map (numberOf order [a, b] :: ·)

/-- The numbers of units of four bytes. -/
def units32? (order : ByteOrder) : List UInt8 → Option (List Nat)
  | [] => some []
  | a :: b :: c :: d :: rest => (units32? order rest).map (numberOf order [a, b, c, d] :: ·)
  | _ => none

/-- The text of sixteen-bit units, pairs of which are characters. -/
def ofUnits16 : List Nat → Text
  | [] => []
  | [n] => [.ofNat n]
  | n :: m :: rest =>
    if isHighUnit n && isLowUnit m then .ofPair n m :: ofUnits16 rest
    else .ofNat n :: ofUnits16 (m :: rest)

/-- The text of numbers of code points. -/
def ofUnits32? (ns : List Nat) : Option Text :=
  if ns.all (· < 0x110000) then some (ns.map .ofNat) else none

/-- Reads bytes in a form. -/
def Form.decode? (bytes : List UInt8) : Form → Option Text
  | .utf8 => (Utf8.decode bytes).toOption.map ofChars
  | .utf16 order => (units16? order bytes).map ofUnits16
  | .utf32 order => (units32? order bytes).bind ofUnits32?

/-- Reads bytes in the form that they show by themselves. -/
def ofBytes? (bytes : List UInt8) : Option Text :=
  match marks.find? fun m => m.1.isPrefixOf bytes with
  | some (mark, form) => form.decode? (bytes.drop mark.length)
  | none => (Form.guess bytes).decode? bytes

end Dialectic.Text
