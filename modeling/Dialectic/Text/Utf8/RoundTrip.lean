import Dialectic.Text.Utf8

/-!
# Reading what was written in UTF-8

Main statement: the bytes of a text are read as that text (`decode_encode`). It comes from one
statement for each number of bytes that a character may take.
-/

namespace Dialectic.Text.Utf8

/-! ## Bytes -/

/-- A number below 256 is the value of its byte. -/
theorem toNat_toUInt8 {n : Nat} (h : n < 256) : n.toUInt8.toNat = n := by
  simp
  omega

/-- A byte is within a range exactly if its value is. -/
theorem within_iff {lo hi : Nat} {b : UInt8} : within lo hi b ↔ lo ≤ b.toNat ∧ b.toNat ≤ hi := by
  simp [within]

/-- The six low bits of a number make a byte that continues a character. -/
theorem toNat_continuation (n : Nat) : (0x80 + n % 64).toUInt8.toNat = 0x80 + n % 64 :=
  toNat_toUInt8 (by omega)

/-- Such a byte is within the range of the bytes that continue a character. -/
theorem within_continuation (n : Nat) : within 0x80 0xbf (0x80 + n % 64).toUInt8 := by
  rw [within_iff, toNat_continuation]
  omega

/-! ## Characters by the number of their bytes -/

/-- One byte is read as the character of its number. -/
theorem decodeFrom_one {n : Nat} (h : n < 0x80) (position : Nat) (rest : List UInt8) :
    decodeFrom position (n.toUInt8 :: rest) =
      (Char.ofNat n :: ·) <$> decodeFrom (position + 1) rest := by
  rw [decodeFrom.eq_def]
  simp only [toNat_toUInt8 (show n < 256 by omega)]
  rw [if_pos h]

/-- Two bytes are read as the character that they encode. -/
theorem decodeFrom_two {n : Nat} (h₁ : 0x80 ≤ n) (h₂ : n < 0x800) (position : Nat)
    (rest : List UInt8) :
    decodeFrom position ((0xc0 + n / 64).toUInt8 :: (0x80 + n % 64).toUInt8 :: rest) =
      (Char.ofNat n :: ·) <$> decodeFrom (position + 2) rest := by
  have ha : (0xc0 + n / 64).toUInt8.toNat = 0xc0 + n / 64 := toNat_toUInt8 (by omega)
  have hl : lead? (0xc0 + n / 64).toUInt8 = some (1, 0x80, 0xbf, n / 64) := by
    simp only [lead?, ha]
    rw [if_neg (by omega), if_pos (by omega)]
    simp
  have hn : n / 64 * 64 + (0x80 + n % 64 - 0x80) = n := by omega
  rw [decodeFrom.eq_def]
  simp only [ha, hl, within_continuation, toNat_continuation, hn]
  rw [if_neg (by omega), if_neg (by simp), if_pos trivial]

/-- So are three, unless they encode a surrogate. -/
theorem decodeFrom_three {n : Nat} (h₁ : 0x800 ≤ n) (h₂ : n < 0x10000)
    (hs : n < 0xd800 ∨ 0xdfff < n) (position : Nat) (rest : List UInt8) :
    decodeFrom position
        ((0xe0 + n / 4096).toUInt8 :: (0x80 + n / 64 % 64).toUInt8 :: (0x80 + n % 64).toUInt8 ::
          rest) =
      (Char.ofNat n :: ·) <$> decodeFrom (position + 3) rest := by
  have ha : (0xe0 + n / 4096).toUInt8.toNat = 0xe0 + n / 4096 := toNat_toUInt8 (by omega)
  have hl : lead? (0xe0 + n / 4096).toUInt8 =
      some (2, if 0xe0 + n / 4096 = 0xe0 then 0xa0 else 0x80,
        if 0xe0 + n / 4096 = 0xed then 0x9f else 0xbf, n / 4096) := by
    simp only [lead?, ha]
    rw [if_neg (by omega), if_neg (by omega), if_pos (by omega)]
    simp
  have hw : within (if 0xe0 + n / 4096 = 0xe0 then 0xa0 else 0x80)
      (if 0xe0 + n / 4096 = 0xed then 0x9f else 0xbf) (0x80 + n / 64 % 64).toUInt8 := by
    rw [within_iff, toNat_continuation]
    constructor <;> split <;> omega
  have hn : (n / 4096 * 64 + (0x80 + n / 64 % 64 - 0x80)) * 64 + (0x80 + n % 64 - 0x80) = n := by
    omega
  rw [decodeFrom.eq_def]
  simp only [ha, hl, hw, within_continuation, toNat_continuation, hn]
  rw [if_neg (by omega), if_neg (by simp), if_neg (by simp), if_neg (by simp), if_pos trivial]

/-- So are four. -/
theorem decodeFrom_four {n : Nat} (h₁ : 0x10000 ≤ n) (h₂ : n < 0x110000) (position : Nat)
    (rest : List UInt8) :
    decodeFrom position
        ((0xf0 + n / 262144).toUInt8 :: (0x80 + n / 4096 % 64).toUInt8 ::
          (0x80 + n / 64 % 64).toUInt8 :: (0x80 + n % 64).toUInt8 :: rest) =
      (Char.ofNat n :: ·) <$> decodeFrom (position + 4) rest := by
  have ha : (0xf0 + n / 262144).toUInt8.toNat = 0xf0 + n / 262144 := toNat_toUInt8 (by omega)
  have hl : lead? (0xf0 + n / 262144).toUInt8 =
      some (3, if 0xf0 + n / 262144 = 0xf0 then 0x90 else 0x80,
        if 0xf0 + n / 262144 = 0xf4 then 0x8f else 0xbf, n / 262144) := by
    simp only [lead?, ha]
    rw [if_neg (by omega), if_neg (by omega), if_neg (by omega), if_pos (by omega)]
    simp
  have hw : within (if 0xf0 + n / 262144 = 0xf0 then 0x90 else 0x80)
      (if 0xf0 + n / 262144 = 0xf4 then 0x8f else 0xbf) (0x80 + n / 4096 % 64).toUInt8 := by
    rw [within_iff, toNat_continuation]
    constructor <;> split <;> omega
  have hn : ((n / 262144 * 64 + (0x80 + n / 4096 % 64 - 0x80)) * 64 +
      (0x80 + n / 64 % 64 - 0x80)) * 64 + (0x80 + n % 64 - 0x80) = n := by omega
  rw [decodeFrom.eq_def]
  simp only [ha, hl, hw, within_continuation, toNat_continuation, hn]
  rw [if_neg (by omega), if_neg (by simp), if_neg (by simp), if_neg (by simp), if_neg (by simp),
    if_neg (by simp)]

/-! ## Texts -/

/-- Reading the bytes of a character gives it back and goes on after them. -/
theorem decodeFrom_encodeChar (position : Nat) (c : Char) (rest : List UInt8) :
    decodeFrom position (encodeChar c ++ rest) =
      (c :: ·) <$> decodeFrom (position + (encodeChar c).length) rest := by
  have hv : c.toNat < 0xd800 ∨ (0xdfff < c.toNat ∧ c.toNat < 0x110000) := c.valid
  have hc : c = Char.ofNat c.toNat := (Char.ofNat_toNat c).symm
  rw [encodeChar]
  generalize c.toNat = n at hv hc
  subst hc
  by_cases h₁ : n < 0x80
  · simpa [h₁] using decodeFrom_one h₁ position rest
  · by_cases h₂ : n < 0x800
    · simpa [h₁, h₂] using decodeFrom_two (by omega) h₂ position rest
    · by_cases h₃ : n < 0x10000
      · simpa [h₁, h₂, h₃] using decodeFrom_three (by omega) h₃ (by omega) position rest
      · simpa [h₁, h₂, h₃] using decodeFrom_four (by omega) (by omega) position rest

/-- The bytes of a text are read as that text, wherever they stand. -/
theorem decodeFrom_encode (position : Nat) (cs : List Char) :
    decodeFrom position (encode cs) = .ok cs := by
  induction cs generalizing position with
  | nil => rfl
  | cons c cs ih =>
    rw [encode_cons, decodeFrom_encodeChar, ih]
    rfl

/-- Reading what was written gives the text back. -/
@[simp] theorem decode_encode (cs : List Char) : decode (encode cs) = .ok cs :=
  decodeFrom_encode 0 cs

/-! ## Texts after other bytes -/

/-- What is written after bytes that are read is read after them. -/
theorem decodeFrom_append_encode {position : Nat} {bytes : List UInt8} {cs : List Char}
    (h : decodeFrom position bytes = .ok cs) (ds : List Char) :
    decodeFrom position (bytes ++ encode ds) = .ok (cs ++ ds) := by
  have hmap : ∀ {c : Char} {x : Except Error (List Char)} {cs : List Char},
      (c :: ·) <$> x = .ok cs → ∃ cs', x = .ok cs' ∧ cs = c :: cs' := by
    intro c x cs hx
    cases x with
    | error e => simp [Functor.map, Except.map] at hx
    | ok cs' => exact ⟨cs', rfl, (Except.ok.inj hx).symm⟩
  -- Whether a character takes one, two, three or four bytes, those after it are looked at no more.
  fun_induction decodeFrom position bytes generalizing cs with
  | case1 position =>
    obtain rfl := Except.ok.inj h
    exact decodeFrom_encode position ds
  | case2 position a rest ha ih =>
    obtain ⟨cs, hrest, rfl⟩ := hmap h
    rw [List.cons_append, decodeFrom, if_pos ha, ih hrest]
    rfl
  | case6 position a ha lo hi top b rest hb hlead ih =>
    obtain ⟨cs, hrest, rfl⟩ := hmap h
    rw [List.cons_append, List.cons_append, decodeFrom, if_neg ha]
    simp only [hlead, if_neg hb, if_true, ih hrest]
    rfl
  | case9 position a ha lo hi top b hb c rest hc hlead hcount ih =>
    obtain ⟨cs, hrest, rfl⟩ := hmap h
    rw [List.cons_append, List.cons_append, List.cons_append, decodeFrom, if_neg ha]
    simp only [hlead, if_neg hb, if_neg hcount, if_neg hc, if_true, ih hrest]
    rfl
  | case12 position a ha count lo hi top hlead b hb hcount c hc hcount' d rest hd ih =>
    obtain ⟨cs, hrest, rfl⟩ := hmap h
    rw [List.cons_append, List.cons_append, List.cons_append, List.cons_append,
      decodeFrom, if_neg ha]
    simp only [hlead, if_neg hb, if_neg hcount, if_neg hc, if_neg hcount', if_neg hd, ih hrest]
    rfl
  | _ => exact absurd h (by simp)

/-- Encoded text may follow any text that is decoded. -/
theorem decode_append_encode {bytes : List UInt8} {cs : List Char} (h : decode bytes = .ok cs)
    (ds : List Char) : decode (bytes ++ encode ds) = .ok (cs ++ ds) :=
  decodeFrom_append_encode h ds

end Dialectic.Text.Utf8
