import Dialectic.Text.Quoted

/-!
# UTF-8

Writing characters as bytes, and the strict reading of bytes as characters, which says where and why
it stops.
-/

namespace Dialectic.Text.Utf8

/-! ## Writing -/

/-- The bytes of one character. -/
def encodeChar (c : Char) : List UInt8 :=
  let n := c.toNat
  if n < 0x80 then [n.toUInt8]
  else if n < 0x800 then [(0xc0 + n / 64).toUInt8, (0x80 + n % 64).toUInt8]
  else if n < 0x10000 then
    [(0xe0 + n / 4096).toUInt8, (0x80 + n / 64 % 64).toUInt8, (0x80 + n % 64).toUInt8]
  else
    [(0xf0 + n / 262144).toUInt8, (0x80 + n / 4096 % 64).toUInt8, (0x80 + n / 64 % 64).toUInt8,
      (0x80 + n % 64).toUInt8]

/-- The bytes of a text. -/
def encode (cs : List Char) : List UInt8 := cs.flatMap encodeChar

@[simp] theorem encode_nil : encode [] = [] := rfl

@[simp] theorem encode_cons (c : Char) (cs : List Char) :
    encode (c :: cs) = encodeChar c ++ encode cs := rfl

@[simp] theorem encode_append (cs ds : List Char) : encode (cs ++ ds) = encode cs ++ encode ds := by
  simp [encode]

/-! ## Reading -/

/-- Why a byte cannot be read. -/
inductive Fault where
  /-- No character begins with this byte. -/
  | badStart
  /-- A byte inside a character does not continue it. -/
  | badContinuation
  /-- The bytes end inside a character. -/
  | unexpectedEnd
  deriving DecidableEq, Repr

/-- What a fault is called. -/
def Fault.message : Fault → String
  | .badStart => "invalid start byte"
  | .badContinuation => "invalid continuation byte"
  | .unexpectedEnd => "unexpected end of data"

/-- A failed reading: the offending bytes and where the first of them stands. -/
structure Error where
  /-- The position of the first offending byte. -/
  position : Nat
  /-- The offending bytes, at least one. -/
  bytes : List UInt8
  /-- Why they cannot be read. -/
  fault : Fault
  deriving DecidableEq, Repr

/-- The text of the failure: a single byte is shown, several are given by their positions. -/
def Error.message (e : Error) : String :=
  let place :=
    match e.bytes with
    | [b] => "byte 0x" ++ String.ofList (hex 2 b.toNat) ++ " in position " ++ toString e.position
    | bs => "bytes in position " ++ toString e.position ++ "-" ++
        toString (e.position + bs.length - 1)
  "'utf-8' codec can't decode " ++ place ++ ": " ++ e.fault.message

/-- What a first byte promises: how many bytes continue the character, the least and the greatest
second byte, and the leading bits of the code point. -/
def lead? (b : UInt8) : Option (Nat × Nat × Nat × Nat) :=
  let n := b.toNat
  if n < 0xc2 then none
  else if n < 0xe0 then some (1, 0x80, 0xbf, n - 0xc0)
  else if n < 0xf0 then
    some (2, if n = 0xe0 then 0xa0 else 0x80, if n = 0xed then 0x9f else 0xbf, n - 0xe0)
  else if n < 0xf5 then
    some (3, if n = 0xf0 then 0x90 else 0x80, if n = 0xf4 then 0x8f else 0xbf, n - 0xf0)
  else none

/-- Whether a byte lies in the given range. -/
def within (lo hi : Nat) (b : UInt8) : Bool := lo ≤ b.toNat && b.toNat ≤ hi

/-- Reads the bytes that stand at a position of the whole. -/
def decodeFrom (position : Nat) : List UInt8 → Except Error (List Char)
  | [] => .ok []
  | a :: rest =>
    if a.toNat < 0x80 then
      (Char.ofNat a.toNat :: ·) <$> decodeFrom (position + 1) rest
    else
      match lead? a with
      | none => .error ⟨position, [a], .badStart⟩
      | some (count, lo, hi, top) =>
        match rest with
        | [] => .error ⟨position, [a], .unexpectedEnd⟩
        | b :: rest =>
          if !within lo hi b then .error ⟨position, [a], .badContinuation⟩
          else if count = 1 then
            (Char.ofNat (top * 64 + (b.toNat - 0x80)) :: ·) <$> decodeFrom (position + 2) rest
          else
            match rest with
            | [] => .error ⟨position, [a, b], .unexpectedEnd⟩
            | c :: rest =>
              if !within 0x80 0xbf c then .error ⟨position, [a, b], .badContinuation⟩
              else if count = 2 then
                (Char.ofNat ((top * 64 + (b.toNat - 0x80)) * 64 + (c.toNat - 0x80)) :: ·) <$>
                  decodeFrom (position + 3) rest
              else
                match rest with
                | [] => .error ⟨position, [a, b, c], .unexpectedEnd⟩
                | d :: rest =>
                  if !within 0x80 0xbf d then .error ⟨position, [a, b, c], .badContinuation⟩
                  else
                    (Char.ofNat (((top * 64 + (b.toNat - 0x80)) * 64 + (c.toNat - 0x80)) * 64 +
                      (d.toNat - 0x80)) :: ·) <$> decodeFrom (position + 4) rest

/-- Reads bytes as a text. -/
def decode (bytes : List UInt8) : Except Error (List Char) := decodeFrom 0 bytes

@[simp] theorem decode_nil : decode [] = .ok [] := rfl

end Dialectic.Text.Utf8
