import Dialectic.Proofs.Strings
import Mathlib.Data.List.Chain

/-!
# What is read of a string

A string is read code point by code point (`Spells`) up to its closing quote (`Scans`), and each of
them is read alike wherever it stands: only the escape of a first unit looks at what follows. So a
string ends where it does in a longer text, if no quote is in what is appended
(`exists_scanString_of_append`); if an object is appended, a string that was left open ends at the
first quote of the object (`scanString_append_open`). A text without surrogates has no string with
two surrogates that make a pair (`joined_of_scanString`).
-/

namespace Dialectic

namespace Text

/-! ## Texts without pairs -/

/-- Whether two code points are surrogates that make a pair. -/
def ArePaired : CodePoint → CodePoint → Prop
  | .surrogate u, .surrogate v => u.val < 1024 ∧ 1024 ≤ v.val
  | _, _ => False

/-- Where no neighbours make a pair nothing is joined. -/
theorem joined_eq_self {t : Text} (h : t.IsChain fun p q => ¬ ArePaired p q) : joined t = t := by
  fun_induction joined t with
  | case1 => rfl
  | case2 u v rest hpair ih => exact absurd hpair (List.isChain_cons_cons.1 h).1
  | case3 u v rest hpair ih => rw [ih (List.isChain_cons_cons.1 h).2]
  | case4 p rest hnot ih => rw [ih h.tail]

end Text

namespace Json

open Text (ArePaired isHighUnit isLowUnit joined)

variable {done taken rest cs s after : Text} {q : CodePoint} {r : Text × Text}

/-! ## Code points -/

/-- How a code point is written inside a string: what is taken for it, and what follows. -/
inductive Spells : Text → CodePoint → Text → Prop
  | plain {p : CodePoint} {rest : Text} (h : isPlain p) (hquote : p ≠ .char '"') : Spells [p] p rest
  | short {c e : Char} {rest : Text} (h : shortEscape? c = some e) :
      Spells [.char '\\', .char c] (.char e) rest
  | unit {a b c d : CodePoint} {n : Nat} {rest : Text} (h : unit? a b c d = some n)
      (hpair : ¬ (isHighUnit n ∧ BeginsLow rest)) :
      Spells [.char '\\', .char 'u', a, b, c, d] (.ofNat n) rest
  | pair {a b c d e f g h : CodePoint} {n m : Nat} {rest : Text} (hn : unit? a b c d = some n)
      (hm : unit? e f g h = some m) (hhigh : isHighUnit n) (hlow : isLowUnit m) :
      Spells [.char '\\', .char 'u', a, b, c, d, .char '\\', .char 'u', e, f, g, h]
        (.ofPair n m) rest

/-- A spelled code point is read as itself. -/
theorem Spells.scanString_eq (h : Spells taken q rest) (done : Text) :
    scanString done (taken ++ rest) = scanString (q :: done) rest := by
  cases h with
  | plain h hquote => exact scanString_plain h hquote
  | short h => exact scanString_short h
  | unit h hpair => exact scanString_unit h hpair
  | pair hn hm hhigh hlow => exact scanString_pair hn hm hhigh hlow

/-- A code point is read alike if no escape of a second unit follows that did not follow before. -/
theorem Spells.of_beginsLow {rest' : Text} (h : Spells taken q rest)
    (hlow : BeginsLow rest' → BeginsLow rest) : Spells taken q rest' := by
  cases h with
  | plain h hquote => exact .plain h hquote
  | short h => exact .short h
  | unit h hpair => exact .unit h fun hboth => hpair (hboth.imp_right hlow)
  | pair hn hm hhigh hlow => exact .pair hn hm hhigh hlow

theorem Spells.ne_nil (h : Spells taken q rest) : taken ≠ [] := by
  cases h <;> simp

theorem beginsLow_append {more : Text} (h : BeginsLow rest) : BeginsLow (rest ++ more) := by
  obtain ⟨e, f, g, k, after, m, rfl, hm, hlow⟩ := h
  exact ⟨e, f, g, k, after ++ more, m, rfl, hm, hlow⟩

/-! ## Strings -/

/-- How a string is read after what was read of it before: to its end, where a text is found and
something follows. -/
inductive Scans : Text → Text → Text × Text → Prop
  | quote (done rest : Text) : Scans done (.char '"' :: rest) (done.reverse, rest)
  | next {done cs taken rest : Text} {q : CodePoint} {r : Text × Text} (heq : cs = taken ++ rest)
      (h : Spells taken q rest) (hrest : Scans (q :: done) rest r) : Scans done cs r

/-- What is read is spelled. -/
theorem scans_of_scanString (h : scanString done cs = some r) : Scans done cs r := by
  fun_induction scanString done cs with
  | case1 done rest =>
    obtain rfl := Option.some.inj h
    exact .quote done rest
  | case2 => exact absurd h (by simp)
  | case3 => exact absurd h (by simp)
  | case4 done a b c d n hn e f g k after m hm hpair ih =>
    rw [Bool.and_eq_true] at hpair
    exact .next rfl (.pair hn hm hpair.1 hpair.2) (ih h)
  | case5 done a b c d n hn e f g k after m hm hpair ih =>
    refine .next rfl (.unit hn ?_) (ih h)
    rintro ⟨hhigh, e', f', g', k', after', m', heq, hm', hlow⟩
    simp only [List.cons.injEq, true_and] at heq
    obtain ⟨rfl, rfl, rfl, rfl, -⟩ := heq
    rw [hm, Option.some.injEq] at hm'
    exact hpair (by rw [hhigh, hm', hlow, Bool.and_self])
  | case6 done a b c d n hn rest hnot ih =>
    refine .next rfl (.unit hn ?_) (ih h)
    rintro ⟨-, e, f, g, k, after, m, heq, -⟩
    exact hnot e f g k after heq
  | case7 done c rest hnot e he ih => exact .next rfl (.short he) (ih h)
  | case8 => exact absurd h (by simp)
  | case9 done p rest hquote hunit hshort hp ih => exact .next rfl (.plain hp hquote) (ih h)
  | case10 => exact absurd h (by simp)
  | case11 => exact absurd h (by simp)

/-- What is spelled is read. -/
theorem Scans.scanString_eq (h : Scans done cs r) : scanString done cs = some r := by
  induction h with
  | quote done rest => rw [scanString]
  | next heq h _ ih => rw [heq, h.scanString_eq, ih]

/-! ## Where a string ends -/

theorem Scans.quote_mem (h : Scans done cs r) : .char '"' ∈ cs := by
  induction h with
  | quote done rest => exact List.mem_cons_self ..
  | next heq _ _ ih =>
    rw [heq]
    exact List.mem_append_right _ ih

/-- A string does not end in what has no quotes. -/
theorem exists_scanString_of_append {b : Text} (hb : .char '"' ∉ b)
    (h : scanString done (cs ++ b) = some (s, after)) :
    ∃ after', scanString done cs = some (s, after') ∧ after = after' ++ b := by
  generalize ht : cs ++ b = t at h
  generalize hr : (s, after) = r at h
  have hscans := scans_of_scanString h
  clear h
  induction hscans generalizing cs with
  | quote done rest =>
    obtain ⟨rfl, rfl⟩ := Prod.mk.inj hr
    cases cs with
    | nil =>
      rw [List.nil_append] at ht
      exact absurd (by simp [ht]) hb
    | cons p cs =>
      rw [List.cons_append, List.cons.injEq] at ht
      obtain ⟨rfl, rfl⟩ := ht
      exact ⟨cs, by rw [scanString], rfl⟩
  | @next done t taken rest q r heq h hrest ih =>
    obtain ⟨more, rfl, rfl⟩ | ⟨more, rfl, rfl⟩ := List.append_eq_append_iff.1 (ht.trans heq)
    · -- What was taken reaches into what has no quotes.
      exact absurd (List.mem_append_right _ hrest.quote_mem) hb
    · obtain ⟨after', hscan, hafter⟩ := ih rfl hr
      refine ⟨after', ?_, hafter⟩
      rw [(h.of_beginsLow beginsLow_append).scanString_eq, hscan]

/-- The four digits of a unit are hexadecimal. -/
theorem exists_digit?_of_unit? {a b c d : CodePoint} {n : Nat} (h : unit? a b c d = some n) :
    ∀ p ∈ [a, b, c, d], ∃ k ∈ p.char?, (Text.Hexadecimal.digit? k).isSome := by
  simp only [unit?, Option.bind_eq_bind, Option.bind_eq_some_iff] at h
  obtain ⟨_, ⟨a, ha, hda⟩, _, ⟨b, hb, hdb⟩, _, ⟨c, hc, hdc⟩, _, ⟨d, hd, hdd⟩, -⟩ := h
  simp only [List.forall_mem_cons, ha, hb, hc, hd, Option.mem_def, Option.some.injEq,
    exists_eq_left', hda, hdb, hdc, hdd]
  simp

/-- Every escape begins with a backslash, and none has a brace in it. -/
theorem Spells.eq_or_brace_not_mem (h : Spells taken q rest) :
    taken = [q] ∨ ∃ esc, taken = .char '\\' :: esc ∧ .char '\x7b' ∉ esc := by
  have hunit : ∀ {a b c d : CodePoint} {n : Nat},
      unit? a b c d = some n → .char '\x7b' ∉ [a, b, c, d] := by
    intro a b c d n hn hmem
    obtain ⟨k, hk, hdigit⟩ := exists_digit?_of_unit? hn _ hmem
    obtain rfl : '\x7b' = k := Option.some.inj hk
    exact absurd hdigit (by decide)
  cases h with
  | plain h hquote => exact .inl rfl
  | short h =>
    refine .inr ⟨_, rfl, ?_⟩
    rw [List.mem_singleton, CodePoint.char.injEq]
    rintro rfl
    simp [shortEscape?] at h
  | unit h hpair => exact .inr ⟨_, rfl, by simpa using hunit h⟩
  | pair hn hm hhigh hlow =>
    exact .inr ⟨_, rfl, by simpa [and_assoc] using And.intro (hunit hn) (hunit hm)⟩

/-- A string that is left open where an object follows ends at the first quote of the object. -/
theorem scanString_append_open {l : Text}
    (h : scanString done (cs ++ .char '\x7b' :: .char '"' :: l) = some (s, after)) :
    (∃ after', scanString done cs = some (s, after') ∧
        after = after' ++ .char '\x7b' :: .char '"' :: l) ∨ after = l := by
  generalize ht : cs ++ .char '\x7b' :: .char '"' :: l = t at h
  generalize hr : (s, after) = r at h
  have hscans := scans_of_scanString h
  clear h
  induction hscans generalizing cs with
  | quote done rest =>
    obtain ⟨rfl, rfl⟩ := Prod.mk.inj hr
    cases cs with
    | nil => simp at ht
    | cons p cs =>
      rw [List.cons_append, List.cons.injEq] at ht
      obtain ⟨rfl, rfl⟩ := ht
      exact .inl ⟨cs, by rw [scanString], rfl⟩
  | @next done t taken rest q r heq h hrest ih =>
    obtain ⟨more, rfl, hmore⟩ | ⟨more, rfl, rfl⟩ := List.append_eq_append_iff.1 (ht.trans heq)
    · cases more with
      | nil =>
        obtain ⟨after', hscan, -⟩ | hafter := @ih [] hmore hr
        · simp [scanString] at hscan
        · exact .inr hafter
      | cons p more =>
        rw [List.cons_append, List.cons.injEq] at hmore
        obtain ⟨rfl, hmore⟩ := hmore
        rcases h.eq_or_brace_not_mem with htaken | ⟨esc, htaken, hesc⟩
        · -- The brace is taken by itself, and the quote after it ends the string.
          obtain ⟨rfl, rfl⟩ : cs = [] ∧ more = [] := by
            have := congrArg List.length htaken
            simp only [List.length_append, List.length_cons, List.length_nil] at this
            exact ⟨List.eq_nil_of_length_eq_zero (by omega),
              List.eq_nil_of_length_eq_zero (by omega)⟩
          have hquote := hrest.scanString_eq
          rw [List.nil_append] at hmore
          rw [← hmore, scanString, ← hr] at hquote
          simp only [Option.some.injEq, Prod.mk.injEq] at hquote
          exact .inr hquote.2.symm
        · cases cs with
          | nil => simp at htaken
          | cons c cs =>
            rw [List.cons_append, List.cons.injEq] at htaken
            exact absurd (by simp [← htaken.2]) hesc
    · obtain ⟨after', hscan, hafter⟩ | hafter := ih rfl hr
      · refine .inl ⟨after', ?_, hafter⟩
        rw [(h.of_beginsLow beginsLow_append).scanString_eq, hscan]
      · exact .inr hafter

/-! ## What is found -/

theorem eq_of_ofNat_eq_surrogate {n : Nat} {u : Fin 2048} (h : CodePoint.ofNat n = .surrogate u) :
    n = 0xd800 + u.val := by
  unfold CodePoint.ofNat at h
  split at h
  · obtain rfl := CodePoint.surrogate.inj h
    simp only [Fin.ofNat]
    omega
  · simp at h

/-- A surrogate that does not stand there itself is written as its unit. -/
theorem Spells.exists_unit? {u : Fin 2048} (h : Spells taken (.surrogate u) rest)
    (htaken : .surrogate u ∉ taken) :
    ∃ a b c d, taken = [.char '\\', .char 'u', a, b, c, d] ∧ unit? a b c d = some (0xd800 + u.val) ∧
      ¬ (isHighUnit (0xd800 + u.val) ∧ BeginsLow rest) := by
  generalize hq : CodePoint.surrogate u = q at h
  cases h with
  | plain h hquote => exact absurd (List.mem_singleton.2 hq) htaken
  | short h => simp at hq
  | @unit a b c d n rest h hpair =>
    obtain rfl := eq_of_ofNat_eq_surrogate hq.symm
    exact ⟨a, b, c, d, rfl, h, hpair⟩
  | pair hn hm hhigh hlow => simp [CodePoint.ofPair] at hq

/-- In a string of a text without surrogates no two surrogates make a pair. -/
theorem Scans.joined_eq (h : Scans done cs r) (hcs : ∀ u, .surrogate u ∉ cs)
    (hdone : done.IsChain fun q p => ¬ ArePaired p q)
    (hlow : ∀ u : Fin 2048, done.head? = some (.surrogate u) → u.val < 1024 → ¬ BeginsLow cs) :
    Text.joined r.1 = r.1 := by
  induction h with
  | quote done rest => exact Text.joined_eq_self (List.isChain_reverse.2 hdone)
  | @next done t taken rest q r heq h hrest ih =>
    subst heq
    have htaken : ∀ u, .surrogate u ∉ taken := fun u hu => hcs u (List.mem_append_left _ hu)
    refine ih (fun u hu => hcs u (List.mem_append_right _ hu)) ?_ ?_
    · -- The escape of a second unit does not follow the escape of a first one.
      refine List.isChain_cons.2 ⟨fun p hp hpair => ?_, hdone⟩
      cases p with
      | char c => exact hpair
      | surrogate u =>
        cases q with
        | char c => exact hpair
        | surrogate v =>
          obtain ⟨a, b, c, d, rfl, hunit, -⟩ := h.exists_unit? (htaken v)
          exact hlow u hp hpair.1
            ⟨a, b, c, d, rest, _, rfl, hunit, (Text.isLowUnit_iff v).2 hpair.2⟩
    · intro u hu hhigh
      obtain rfl := Option.some.inj hu
      obtain ⟨a, b, c, d, rfl, -, hpair⟩ := h.exists_unit? (htaken u)
      exact fun hbegins => hpair ⟨(Text.isHighUnit_iff u).2 hhigh, hbegins⟩

/-- In a text without surrogates, a string that is read has no pair left to join. -/
theorem joined_of_scanString (hcs : ∀ u, .surrogate u ∉ cs)
    (h : scanString [] cs = some (s, after)) : Text.joined s = s :=
  (scans_of_scanString h).joined_eq hcs .nil (by simp)

end Json

end Dialectic
