import Dialectic.Json.Parser
import Dialectic.Json.Printer
import Mathlib.Tactic.SplitIfs

/-!
# Texts in JSON strings

A text is written with its characters and surrogates escaped, and what was written is read back,
except that two surrogates that make a pair come back as the character of the pair (`Text.joined`,
`scanString_escaped`). Which of the two was written cannot be seen, since both are written alike
(`flatMap_escapePoint_joined`).
-/

namespace Dialectic

/-! ## Hexadecimal digits -/

namespace Text

/-- A digit more stands at the end. -/
theorem hex_succ {w : Nat} (hw : 0 < w) (n : Nat) :
    hex (w + 1) n = hex w (n / 16) ++ [Nat.digitChar (n % 16)] := by
  simp only [hex]
  by_cases hn : n < 16
  · obtain ⟨w, rfl⟩ := Nat.exists_eq_add_one_of_ne_zero (Nat.ne_of_gt hw)
    rw [Nat.toDigits_of_lt_base hn, Nat.div_eq_of_lt hn, Nat.mod_eq_of_lt hn,
      Nat.toDigits_of_lt_base (by decide)]
    simp [List.replicate_succ', Nat.digitChar]
  · rw [Nat.toDigits_of_base_le (by decide) (by omega), List.length_append, List.length_singleton,
      Nat.add_sub_add_right, List.append_assoc]

theorem hex_one {n : Nat} (h : n < 16) : hex 1 n = [Nat.digitChar n] := by
  rw [hex, Nat.toDigits_of_lt_base h]
  rfl

theorem Hexadecimal.digit?_digitChar : ∀ d < 16, digit? (Nat.digitChar d) = some d := by
  decide

/-! ## Pairs of surrogates -/

/-- A text in which two surrogates that make a pair have become the character of the pair. -/
def joined : Text → Text
  | [] => []
  | .surrogate u :: .surrogate v :: rest =>
    if u.val < 1024 ∧ 1024 ≤ v.val then .ofPair (0xd800 + u.val) (0xd800 + v.val) :: joined rest
    else .surrogate u :: joined (.surrogate v :: rest)
  | c :: rest => c :: joined rest

/-- The first half of the surrogates are high units. -/
theorem isHighUnit_iff (u : Fin 2048) : isHighUnit (0xd800 + u.val) ↔ u.val < 1024 := by
  simp only [isHighUnit, Bool.and_eq_true, decide_eq_true_eq]
  omega

/-- The second half of them are low units. -/
theorem isLowUnit_iff (v : Fin 2048) : isLowUnit (0xd800 + v.val) ↔ 1024 ≤ v.val := by
  simp only [isLowUnit, Bool.and_eq_true, decide_eq_true_eq]
  omega

/-- Characters stay as they are. -/
@[simp] theorem joined_ofChars (cs : List Char) : joined (ofChars cs) = ofChars cs := by
  induction cs with
  | nil => rfl
  | cons c cs ih =>
    rw [ofChars_cons, joined, ih]
    rintro u v rest ⟨⟩

end Text

namespace Json

open Text (hex isHighUnit isLowUnit joined ofChars)

variable {done rest : Text} {n : Nat}

/-! ## Reading step by step -/

/-- Whether a text begins with the escape of a second unit of a pair. -/
def BeginsLow (t : Text) : Prop :=
  ∃ e f g h after m, t = .char '\\' :: .char 'u' :: e :: f :: g :: h :: after ∧
    unit? e f g h = some m ∧ isLowUnit m

/-- A code point that needs no escape stands for itself. -/
theorem scanString_plain {p : CodePoint} (hp : isPlain p) (hquote : p ≠ .char '"') :
    scanString done (p :: rest) = scanString (p :: done) rest := by
  have hback : p ≠ .char '\\' := by
    rintro rfl
    exact absurd hp (by decide)
  rw [scanString.eq_def]
  split <;> simp_all

/-- A short escape stands for its character. -/
theorem scanString_short {c e : Char} (h : shortEscape? c = some e) :
    scanString done (.char '\\' :: .char c :: rest) = scanString (.char e :: done) rest := by
  have hc : c ≠ 'u' := by
    rintro rfl
    simp [shortEscape?] at h
  rw [scanString.eq_def]
  simp [hc, h]

/-- The escape of a unit is read as that unit alone, unless the second unit of a pair follows the
first. -/
theorem scanString_unit {a b c d : CodePoint} (hunit : unit? a b c d = some n)
    (hpair : ¬ (isHighUnit n ∧ BeginsLow rest)) :
    scanString done (.char '\\' :: .char 'u' :: a :: b :: c :: d :: rest) =
      scanString (.ofNat n :: done) rest := by
  rw [scanString, hunit]
  simp only
  split
  · rename_i e f g h after
    cases hm : unit? e f g h with
    | none => simp [scanString, hm]
    | some m =>
      have hjoin : (isHighUnit n && isLowUnit m) = false := by
        rw [Bool.eq_false_iff, Ne, Bool.and_eq_true]
        rintro ⟨hhigh, hlow⟩
        exact hpair ⟨hhigh, e, f, g, h, after, m, rfl, hm, hlow⟩
      simp only [hjoin, Bool.false_eq_true, if_false]
  · rfl

/-- The escapes of the two units of a pair are read as the character of the pair. -/
theorem scanString_pair {a b c d e f g h : CodePoint} {m : Nat} (hn : unit? a b c d = some n)
    (hm : unit? e f g h = some m) (hhigh : isHighUnit n) (hlow : isLowUnit m) :
    scanString done (.char '\\' :: .char 'u' :: a :: b :: c :: d :: .char '\\' :: .char 'u' :: e ::
      f :: g :: h :: rest) = scanString (.ofPair n m :: done) rest := by
  rw [scanString, hn]
  simp only [hm, hhigh, hlow, Bool.and_self, if_true]

/-! ## Escaped units -/

/-- The escape of a unit of sixteen bits is read as that unit. -/
theorem exists_escapeUnit_eq (h : n < 65536) : ∃ a b c d : CodePoint,
    ofChars (escapeUnit n) = [.char '\\', .char 'u', a, b, c, d] ∧ unit? a b c d = some n := by
  refine ⟨.char (Nat.digitChar (n / 16 / 16 / 16)), .char (Nat.digitChar (n / 16 / 16 % 16)),
    .char (Nat.digitChar (n / 16 % 16)), .char (Nat.digitChar (n % 16)), ?_, ?_⟩
  · rw [escapeUnit, Text.hex_succ (by decide), Text.hex_succ (by decide), Text.hex_succ (by decide),
      Text.hex_one (by omega)]
    rfl
  · have hdigit := Text.Hexadecimal.digit?_digitChar
    simp only [unit?, CodePoint.char?_char, Option.bind_eq_bind, Option.bind_some,
      hdigit _ (Nat.mod_lt _ (by decide)), hdigit (n / 16 / 16 / 16) (by omega), pure,
      Option.some.injEq]
    omega

theorem beginsLow_escapeUnit_iff (h : n < 65536) :
    BeginsLow (ofChars (escapeUnit n) ++ rest) ↔ isLowUnit n := by
  obtain ⟨a, b, c, d, hchars, hunit⟩ := exists_escapeUnit_eq h
  rw [hchars]
  constructor
  · rintro ⟨e, f, g, h, after, m, heq, hm, hlow⟩
    simp only [List.cons_append, List.cons.injEq, true_and] at heq
    obtain ⟨rfl, rfl, rfl, rfl, -⟩ := heq
    rw [hunit, Option.some.injEq] at hm
    rwa [hm]
  · intro hlow
    exact ⟨a, b, c, d, rest, n, rfl, hunit, hlow⟩

/-- An escaped unit stands for itself, unless it is the first half of a pair. -/
theorem scanString_escapeUnit (h : n < 65536) (hpair : ¬ (isHighUnit n ∧ BeginsLow rest)) :
    scanString done (ofChars (escapeUnit n) ++ rest) = scanString (.ofNat n :: done) rest := by
  obtain ⟨a, b, c, d, hchars, hunit⟩ := exists_escapeUnit_eq h
  rw [hchars]
  exact scanString_unit hunit hpair

/-- Two units that make a pair stand for one character. -/
theorem scanString_escapePair {m : Nat} (hn : n < 65536) (hm : m < 65536) (hhigh : isHighUnit n)
    (hlow : isLowUnit m) :
    scanString done (ofChars (escapeUnit n) ++ (ofChars (escapeUnit m) ++ rest)) =
      scanString (.ofPair n m :: done) rest := by
  obtain ⟨a, b, c, d, hchars, hunit⟩ := exists_escapeUnit_eq hn
  obtain ⟨e, f, g, h, hchars', hunit'⟩ := exists_escapeUnit_eq hm
  rw [hchars, hchars']
  exact scanString_pair hunit hunit' hhigh hlow

/-! ## Escaped characters -/

/-- The ways in which a character is escaped. -/
inductive Escaped (c : Char) : List Char → Prop
  | short (e : Char) (he : e ≠ 'u') (h : shortEscape? e = some c) : Escaped c ['\\', e]
  | plain (h : isPlain (.char c)) (h' : c ≠ '"') : Escaped c [c]
  | unit (h : c.toNat < 65536) : Escaped c (escapeUnit c.toNat)
  | pair (n m : Nat) (hn : n < 1024) (hm : m < 1024) (h : c.toNat = 0x10000 + n * 1024 + m) :
    Escaped c (escapeUnit (0xd800 + n) ++ escapeUnit (0xdc00 + m))

theorem escaped_escapeChar (c : Char) : Escaped c (escapeChar c) := by
  have hchar : ∀ k, c.toNat = k → c = Char.ofNat k := fun k hk => by rw [← hk, Char.ofNat_toNat]
  unfold escapeChar
  -- One case for each branch of the escaping; form feed and backspace are given by their numbers.
  split_ifs with h₁ h₂ h₃ h₄ h₅ h₆ h₇ h₈ h₉
  · subst h₁
    exact .short '"' (by decide) rfl
  · subst h₂
    exact .short '\\' (by decide) rfl
  · subst h₃
    exact .short 'n' (by decide) rfl
  · subst h₄
    exact .short 'r' (by decide) rfl
  · subst h₅
    exact .short 't' (by decide) rfl
  · rw [hchar _ h₆]
    exact .short 'f' (by decide) rfl
  · rw [hchar _ h₇]
    exact .short 'b' (by decide) rfl
  · exact .plain (by simp [isPlain, h₈.1, h₂]) h₁
  · exact .unit h₉
  · have hlt : c.toNat < 0x110000 := by
      rcases c.valid with h | h
      · exact Nat.lt_trans h (by decide)
      · exact h.2
    exact .pair _ _ (by omega) (Nat.mod_lt _ (by decide)) (by omega)

/-- No character is a unit of a pair. -/
theorem toNat_not_unit (c : Char) : isHighUnit c.toNat = false ∧ isLowUnit c.toNat = false := by
  have hvalid : c.toNat < 0xd800 ∨ (0xdfff < c.toNat ∧ c.toNat < 0x110000) := c.valid
  simp only [isHighUnit, isLowUnit, Bool.and_eq_false_iff, decide_eq_false_iff_not]
  omega

theorem ofNat_toNat (c : Char) : CodePoint.ofNat c.toNat = .char c := by
  have hvalid : c.toNat < 0xd800 ∨ (0xdfff < c.toNat ∧ c.toNat < 0x110000) := c.valid
  rw [CodePoint.ofNat, if_neg (by omega), Char.ofNat_toNat]

theorem ofNat_surrogate (u : Fin 2048) : CodePoint.ofNat (0xd800 + u.val) = .surrogate u := by
  rw [CodePoint.ofNat, if_pos (by omega), Nat.add_sub_cancel_left]
  exact congrArg _ (Fin.ofNat_val_eq_self u)

/-- What is written for a character is read as the character, whatever follows it. -/
theorem scanString_escapeChar (c : Char) :
    scanString done (ofChars (escapeChar c) ++ rest) = scanString (.char c :: done) rest := by
  have hescaped := escaped_escapeChar c
  generalize escapeChar c = cs at hescaped
  cases hescaped with
  | short e he h => exact scanString_short h
  | plain h h' => exact scanString_plain h (by simpa using h')
  | unit h =>
    rw [scanString_escapeUnit h fun hpair => by simp [(toNat_not_unit c).1] at hpair, ofNat_toNat]
  | pair n m hn hm h =>
    have hpair : CodePoint.ofPair (0xd800 + n) (0xdc00 + m) = .char c := by
      rw [CodePoint.ofPair, Nat.add_sub_cancel_left, Nat.add_sub_cancel_left, ← h, Char.ofNat_toNat]
    rw [Text.ofChars_append, List.append_assoc, scanString_escapePair (by omega) (by omega), hpair]
    · simp only [isHighUnit, Bool.and_eq_true, decide_eq_true_eq]
      omega
    · simp only [isLowUnit, Bool.and_eq_true, decide_eq_true_eq]
      omega

/-- No character is written like the second unit of a pair. -/
theorem not_beginsLow_escapeChar (c : Char) : ¬ BeginsLow (ofChars (escapeChar c) ++ rest) := by
  have hescaped := escaped_escapeChar c
  generalize escapeChar c = cs at hescaped
  cases hescaped with
  | short e he h =>
    rintro ⟨_, _, _, _, _, _, heq, -⟩
    simp [he] at heq
  | plain h h' =>
    rintro ⟨_, _, _, _, _, _, heq, -⟩
    simp only [Text.ofChars_cons, Text.ofChars_nil, List.cons_append, List.nil_append,
      List.cons.injEq, CodePoint.char.injEq] at heq
    rw [heq.1] at h
    exact absurd h (by decide)
  | unit h =>
    rw [beginsLow_escapeUnit_iff h, (toNat_not_unit c).2]
    simp
  | pair n m hn hm h =>
    rw [Text.ofChars_append, List.append_assoc, beginsLow_escapeUnit_iff (by omega)]
    simp only [isLowUnit, Bool.and_eq_true, decide_eq_true_eq]
    omega

/-! ## Texts -/

theorem escapePoint_char (c : Char) : escapePoint (.char c) = escapeChar c := rfl

theorem escapePoint_surrogate (u : Fin 2048) :
    escapePoint (.surrogate u) = escapeUnit (0xd800 + u.val) := rfl

/-- **Strings.** What is written for a text is read, up to the closing quote, as the text with its
pairs joined. -/
theorem scanString_escaped (t : Text) :
    scanString done (ofChars (t.flatMap escapePoint) ++ .char '"' :: rest) =
      some (done.reverse ++ joined t, rest) := by
  -- The induction follows the joining: two surrogates at a time where they make a pair.
  fun_induction joined t generalizing done with
  | case1 => simp [scanString]
  | case2 u v t hpair ih =>
    rw [List.flatMap_cons, List.flatMap_cons, escapePoint_surrogate, escapePoint_surrogate,
      Text.ofChars_append, Text.ofChars_append, List.append_assoc, List.append_assoc,
      scanString_escapePair (by omega) (by omega) ((Text.isHighUnit_iff u).2 hpair.1)
      ((Text.isLowUnit_iff v).2 hpair.2), ih]
    simp
  | case3 u v t hpair ih =>
    rw [List.flatMap_cons, escapePoint_surrogate, Text.ofChars_append, List.append_assoc,
      scanString_escapeUnit (by omega), ofNat_surrogate, ih]
    · simp
    · rw [List.flatMap_cons, escapePoint_surrogate, Text.ofChars_append, List.append_assoc,
        beginsLow_escapeUnit_iff (by omega), Text.isHighUnit_iff, Text.isLowUnit_iff]
      exact hpair
  | case4 p t hnot ih =>
    rw [List.flatMap_cons, Text.ofChars_append, List.append_assoc]
    cases p with
    | char c =>
      rw [escapePoint_char, scanString_escapeChar, ih]
      simp
    | surrogate u =>
      rw [escapePoint_surrogate, scanString_escapeUnit (by omega), ofNat_surrogate, ih]
      · simp
      · -- What follows is not the second unit of a pair, or the joining would have taken both.
        rintro ⟨-, hlow⟩
        cases t with
        | nil =>
          obtain ⟨_, _, _, _, _, _, heq, -⟩ := hlow
          simp at heq
        | cons q t =>
          cases q with
          | surrogate v => exact hnot u v t rfl rfl
          | char c =>
            rw [List.flatMap_cons, escapePoint_char, Text.ofChars_append, List.append_assoc] at hlow
            exact not_beginsLow_escapeChar c hlow

/-- A character beyond the units is escaped as a pair. -/
theorem escapeChar_of_le {c : Char} (h : 0x10000 ≤ c.toNat) : escapeChar c =
    escapeUnit (0xd800 + (c.toNat - 0x10000) / 1024) ++
      escapeUnit (0xdc00 + (c.toNat - 0x10000) % 1024) := by
  have hne : ∀ d : Char, d.toNat < 0x10000 → c ≠ d := by
    rintro d hd rfl
    omega
  rw [escapeChar, if_neg (hne _ (by decide)), if_neg (hne _ (by decide)),
    if_neg (hne _ (by decide)), if_neg (hne _ (by decide)), if_neg (hne _ (by decide)),
    if_neg (by omega), if_neg (by omega), if_neg (by omega), if_neg (by omega)]

/-- The bits of the character of a pair above `U+10000` are those of the two units. -/
theorem toNat_ofPair {u v : Fin 2048} (h : u.val < 1024 ∧ 1024 ≤ v.val) :
    (CodePoint.ofPair (0xd800 + u.val) (0xd800 + v.val)).toNat =
      0x10000 + u.val * 1024 + (v.val - 1024) := by
  have hvalue : 0x10000 + (0xd800 + u.val - 0xd800) * 1024 + (0xd800 + v.val - 0xdc00) =
      0x10000 + u.val * 1024 + (v.val - 1024) := by omega
  have hvalid : (0x10000 + u.val * 1024 + (v.val - 1024)).isValidChar := .inr ⟨by omega, by omega⟩
  rw [CodePoint.ofPair, hvalue, CodePoint.toNat, Char.ofNat, dif_pos hvalid]
  rfl

/-- The character of a pair is written like the pair. -/
theorem escapePoint_ofPair {u v : Fin 2048} (h : u.val < 1024 ∧ 1024 ≤ v.val) :
    escapePoint (.ofPair (0xd800 + u.val) (0xd800 + v.val)) =
      escapePoint (.surrogate u) ++ escapePoint (.surrogate v) := by
  obtain ⟨c, hc⟩ : ∃ c, CodePoint.ofPair (0xd800 + u.val) (0xd800 + v.val) = .char c := ⟨_, rfl⟩
  have htoNat : c.toNat = 0x10000 + u.val * 1024 + (v.val - 1024) := by
    have heq := toNat_ofPair h
    rwa [hc] at heq
  have hhigh : 0xd800 + (c.toNat - 0x10000) / 1024 = 0xd800 + u.val := by omega
  have hlow : 0xdc00 + (c.toNat - 0x10000) % 1024 = 0xd800 + v.val := by omega
  rw [hc, escapePoint_char, escapeChar_of_le (by omega), hhigh, hlow, escapePoint_surrogate,
    escapePoint_surrogate]

/-- A text is written like the text with its pairs joined. -/
theorem flatMap_escapePoint_joined (t : Text) :
    (joined t).flatMap escapePoint = t.flatMap escapePoint := by
  fun_induction joined t with
  | case1 => rfl
  | case2 u v t hpair ih =>
    rw [List.flatMap_cons, List.flatMap_cons, List.flatMap_cons, ih, escapePoint_ofPair hpair,
      List.append_assoc]
  | case3 u v t hpair ih =>
    rw [List.flatMap_cons, ih, List.flatMap_cons, List.flatMap_cons, List.flatMap_cons]
  | case4 p t hnot ih => rw [List.flatMap_cons, ih, List.flatMap_cons]

end Json

/-- Where pairs were joined no more are: both texts are written alike, and what is written is read
in one way. -/
theorem Text.joined_joined (t : Text) : joined (joined t) = joined t := by
  have hread : ∀ t : Text, Json.scanString []
      (ofChars (t.flatMap Json.escapePoint) ++ [.char '"']) = some (joined t, []) :=
    fun t => Json.scanString_escaped t
  have htwice := hread (joined t)
  rw [Json.flatMap_escapePoint_joined, hread] at htwice
  simpa using htwice.symm

end Dialectic
