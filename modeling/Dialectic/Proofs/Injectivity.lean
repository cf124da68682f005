import Dialectic.Proofs.Floats
import Dialectic.Proofs.Parts

/-!
# Different values have different texts

Where a value ends in a text can be seen from the text, and so can what the value is, as far as its
names and texts have no two surrogates that make a pair. So what is written for two regular values
is the same only if they are, whatever follows them (`write_append_inj`).
-/

namespace Dialectic.Json

open Text (ofChars)

variable {v w : Json} {r r' : List Char}

/-! ## Words -/

/-- Whether a value is a number or a word. -/
def isWord : Json → Bool
  | .str _ => false
  | .arr _ => false
  | .obj _ => false
  | _ => true

/-- Digits are parts of numbers. -/
theorem isInner_of_isDigit {c : Char} (h : c.isDigit) : isInner (.char c) := by
  simp [isInner, Char.isAlphanum, h]

/-- What the characters of a word show: which of three letters it has, and whether it could be an
integer. -/
def wordSigns (cs : List Char) : List Bool :=
  [cs.contains 'l', cs.contains 'r', cs.contains 's', cs.all fun c => c.isDigit || c = '-']

/-- What the characters of a number or a word must show. -/
def signs : Json → List Bool
  | .null => [true, false, false, false]
  | .bool true => [false, true, false, false]
  | .bool false => [true, false, true, false]
  | .int _ => [false, false, false, true]
  | _ => [false, false, false, false]

/-- The signs of a value that is written as a word show in its text. -/
theorem wordSigns_write (h : v.isWord) : wordSigns v.write = v.signs := by
  have hcontains : ∀ {cs : List Char} {d : Char}, (∀ c ∈ cs, c ≠ d) → cs.contains d = false := by
    intro cs d hne
    rw [List.contains_eq_any_beq, List.any_eq_false]
    exact fun c hc => by simpa using (hne c hc).symm
  cases v with
  | null => rfl
  | bool b => cases b <;> rfl
  | int n =>
    have hne : ∀ d : Char, d.isDigit = false → d ≠ '-' → ∀ c ∈ write (.int n), c ≠ d := by
      rintro d hd hd' c hc rfl
      rcases isDigit_or_of_mem_write_int hc with h | h
      · exact Bool.false_ne_true (hd ▸ h)
      · exact hd' h
    have hall : (write (.int n)).all (fun c => c.isDigit || c = '-') := by
      rw [List.all_eq_true]
      exact fun c hc => by simpa using isDigit_or_of_mem_write_int hc
    rw [wordSigns, hcontains (hne 'l' rfl (by decide)), hcontains (hne 'r' rfl (by decide)),
      hcontains (hne 's' rfl (by decide)), hall]
    rfl
  | float x =>
    have hne : ∀ d : Char, d.isDigit = false → d ∉ ['.', 'e', '-', '+'] → d ∉ ['N', 'a', 'N'] →
        d ∉ ['I', 'n', 'f', 'i', 'n', 'i', 't', 'y'] → ∀ c ∈ write (.float x), c ≠ d := by
      intro d hd hsign hnan hinfinity
      refine forall_mem_write_float ?_ ?_ ?_ ?_ x
      · rintro c hc rfl
        exact Bool.false_ne_true (hd ▸ hc)
      · exact fun c hc hcd => hsign (hcd ▸ hc)
      · exact fun c hc hcd => hnan (hcd ▸ hc)
      · exact fun c hc hcd => hinfinity (hcd ▸ hc)
    obtain ⟨c, hc, hnot⟩ := exists_mem_write_float x
    have hall : (write (.float x)).all (fun c => c.isDigit || c = '-') = false := by
      rw [List.all_eq_false]
      exact ⟨c, hc, by simpa using hnot⟩
    rw [wordSigns, hcontains (hne 'l' rfl (by decide) (by decide) (by decide)),
      hcontains (hne 'r' rfl (by decide) (by decide) (by decide)),
      hcontains (hne 's' rfl (by decide) (by decide) (by decide)), hall]
    rfl
  | _ => exact absurd h Bool.false_ne_true

/-- Such values are numbers, truth values and `null`. -/
theorem cases_of_isWord (h : v.isWord) :
    v = .null ∨ v = .bool true ∨ v = .bool false ∨ (∃ n, v = .int n) ∨ ∃ x, v = .float x := by
  cases v with
  | bool b => cases b <;> simp
  | str t => exact absurd h Bool.false_ne_true
  | arr items => exact absurd h Bool.false_ne_true
  | obj fields => exact absurd h Bool.false_ne_true
  | _ => simp

/-- The text of a number or a word shows which it is. -/
theorem write_inj_of_isWord (hv : v.isWord) (hw : w.isWord) (h : v.write = w.write) : v = w := by
  have hsigns : v.signs = w.signs := by rw [← wordSigns_write hv, ← wordSigns_write hw, h]
  -- Values of different kinds show different signs.
  rcases cases_of_isWord hv with rfl | rfl | rfl | ⟨m, rfl⟩ | ⟨x, rfl⟩ <;>
    rcases cases_of_isWord hw with rfl | rfl | rfl | ⟨n, rfl⟩ | ⟨y, rfl⟩ <;>
    try (simp [signs] at hsigns; done)
  · rfl
  · rfl
  · rfl
  · rw [write_int_inj h]
  · rw [write_float_inj h]

/-! ## Where a value begins and ends -/

/-- All characters of such a text may stand in a word. -/
theorem isInner_of_mem_write (h : v.isWord) : ∀ c ∈ v.write, isInner (.char c) := by
  rcases cases_of_isWord h with rfl | rfl | rfl | ⟨n, rfl⟩ | ⟨x, rfl⟩
  · exact List.all_eq_true.1 rfl
  · exact List.all_eq_true.1 rfl
  · exact List.all_eq_true.1 rfl
  · intro c hc
    rcases isDigit_or_of_mem_write_int hc with hc | rfl
    · exact isInner_of_isDigit hc
    · decide
  · exact forall_mem_write_float (fun c => isInner_of_isDigit) (List.all_eq_true.1 rfl)
      (List.all_eq_true.1 rfl) (List.all_eq_true.1 rfl) x

theorem write_ne_nil_of_isWord (h : v.isWord) : v.write ≠ [] := by
  rcases cases_of_isWord h with rfl | rfl | rfl | ⟨n, rfl⟩ | ⟨x, rfl⟩
  · exact List.cons_ne_nil _ _
  · exact List.cons_ne_nil _ _
  · exact List.cons_ne_nil _ _
  · cases n with
    | ofNat m =>
      rw [write_ofNat]
      exact Nat.toDigits_ne_nil
    | negSucc m =>
      rw [write_negSucc]
      exact List.cons_ne_nil _ _
  · obtain ⟨c, hc, -⟩ := exists_mem_write_float x
    exact List.ne_nil_of_mem hc

/-- The mark that the text of a value begins with, if the value is no number and no word. -/
def opening : Json → Option Char
  | .str _ => some '"'
  | .arr _ => some '['
  | .obj _ => some '{'
  | _ => none

/-- The text of any other value opens with a mark. -/
theorem isWord_iff_opening : v.isWord ↔ v.opening = none := by
  cases v <;> simp [isWord, opening]

/-- The first character of a text shows what kind of value it is of. -/
theorem exists_write_eq_cons (v : Json) :
    ∃ c cs, v.write = c :: cs ∧ v.opening = if isInner (.char c) then none else some c := by
  by_cases hword : v.isWord
  · obtain ⟨c, cs, hcs⟩ := List.exists_cons_of_ne_nil (write_ne_nil_of_isWord hword)
    refine ⟨c, cs, hcs, ?_⟩
    rw [if_pos (isInner_of_mem_write hword c (by simp [hcs])), isWord_iff_opening.1 hword]
  · cases v with
    | str t => exact ⟨'"', _, rfl, rfl⟩
    | arr items => exact ⟨'[', _, rfl, rfl⟩
    | obj fields => exact ⟨'{', _, rfl, rfl⟩
    | _ => exact absurd rfl hword

/-- The mark shows at the beginning of the text, whatever follows. -/
theorem opening_eq_of_append (h : v.write ++ r = w.write ++ r') : v.opening = w.opening := by
  obtain ⟨c, cs, hv, hopening⟩ := exists_write_eq_cons v
  obtain ⟨d, ds, hw, hopening'⟩ := exists_write_eq_cons w
  rw [hv, hw, List.cons_append, List.cons_append, List.cons.injEq] at h
  rw [hopening, hopening', h.1]

/-- What has no other characters than numbers and words have ends where they do. -/
theorem append_inj_of_ends {a b : List Char} (ha : ∀ c ∈ a, isInner (.char c))
    (hb : ∀ c ∈ b, isInner (.char c)) (hr : Ends (ofChars r)) (hr' : Ends (ofChars r'))
    (h : a ++ r = b ++ r') : a = b ∧ r = r' := by
  have hempty : ∀ {t s : List Char}, (∀ c ∈ t, isInner (.char c)) → Ends (ofChars (t ++ s)) →
      t = [] := by
    intro t s ht hs
    cases t with
    | nil => rfl
    | cons c t =>
      have hc := hs (.char c) (by simp)
      exact absurd (ht c (by simp)) (by simp [hc])
  obtain ⟨t, rfl, rfl⟩ | ⟨t, rfl, rfl⟩ := List.append_eq_append_iff.1 h
  · obtain rfl := hempty (fun c hc => hb c (List.mem_append_right _ hc)) hr
    simp
  · obtain rfl := hempty (fun c hc => ha c (List.mem_append_right _ hc)) hr'
    simp

/-- Where a string ends, and what it is, shows in the text, whatever follows. -/
theorem writeString_append_inj {s t : Text} (hs : s.joined = s) (ht : t.joined = t)
    (h : writeString s ++ r = writeString t ++ r') : s = t ∧ r = r' := by
  have hscan : ∀ (t : Text) (r : List Char),
      scanString [] (ofChars (writeString t ++ r)).tail = some (t.joined, ofChars r) := by
    intro t r
    rw [writeString, List.append_assoc, List.cons_append, Text.ofChars_cons, List.tail_cons,
      Text.ofChars_append, List.singleton_append, Text.ofChars_cons, scanString_escaped]
    rfl
  have hboth := hscan s r
  rw [h, hscan t r', Option.some.injEq, Prod.mk.injEq, hs, ht] at hboth
  exact ⟨hboth.1.symm, Text.ofChars_injective hboth.2.symm⟩

/-- So it does for a field, if it does for its value. -/
theorem writeField_append_inj {f g : Text × Json} (hf : f.1.joined = f.1) (hg : g.1.joined = g.1)
    (hvalue : f.2.write ++ r = g.2.write ++ r' → f.2 = g.2 ∧ r = r')
    (h : writeField f ++ r = writeField g ++ r') : f = g ∧ r = r' := by
  simp only [writeField, List.append_assoc, List.cons_append] at h
  obtain ⟨hkey, h⟩ := writeString_append_inj hf hg h
  simp only [List.cons.injEq, true_and] at h
  exact ⟨Prod.ext hkey (hvalue h).1, (hvalue h).2⟩

/-! ## Lists of parts -/

theorem commaSeparated_cons (t : List Char) (ts : List (List Char)) :
    commaSeparated (t :: ts) = t ++ ts.flatMap fun u => ',' :: ' ' :: u := by
  induction ts generalizing t with
  | nil => simp [commaSeparated]
  | cons u ts ih =>
    rw [commaSeparated, ih, List.flatMap_cons, List.cons_append, List.cons_append]
    exact List.cons_ne_nil u ts

section

variable {α : Type} {g : α → List Char} {close : Char} {as bs : List α}

/-- The parts of a list are told apart if each of them is, whatever follows it. -/
theorem flatMap_append_inj (hclose : isInner (.char close) = false) (hcomma : close ≠ ',')
    (hg : ∀ a ∈ as, ∀ b ∈ bs, ∀ r r', Ends (ofChars r) → Ends (ofChars r') → g a ++ r = g b ++ r' →
      a = b ∧ r = r')
    (h : (as.flatMap fun a => ',' :: ' ' :: g a) ++ close :: r =
      (bs.flatMap fun b => ',' :: ' ' :: g b) ++ close :: r') :
    as = bs ∧ r = r' := by
  -- After a part comes a comma or the end, neither of which can be part of a number or a word.
  have hends : ∀ (cs : List α) (r : List Char),
      Ends (ofChars ((cs.flatMap fun c => ',' :: ' ' :: g c) ++ close :: r)) := by
    intro cs r
    cases cs with
    | nil => exact ends_cons hclose
    | cons c cs => exact ends_cons (by decide)
  induction as generalizing bs with
  | nil =>
    cases bs with
    | nil => exact ⟨rfl, (List.cons.inj h).2⟩
    | cons b bs => exact absurd (List.cons.inj h).1 hcomma
  | cons a as ih =>
    cases bs with
    | nil => exact absurd (List.cons.inj h).1.symm hcomma
    | cons b bs =>
      simp only [List.flatMap_cons, List.cons_append, List.append_assoc, List.cons.injEq,
        true_and] at h
      obtain ⟨rfl, hrest⟩ := hg a (by simp) b (by simp) _ _ (hends as r) (hends bs r') h
      obtain ⟨rfl, hr⟩ :=
        ih (fun a ha b hb => hg a (List.mem_cons_of_mem _ ha) b (List.mem_cons_of_mem _ hb)) hrest
      exact ⟨rfl, hr⟩

/-- The same for parts with commas between them, if no part begins like the end. -/
theorem commaSeparated_append_inj (hclose : isInner (.char close) = false) (hcomma : close ≠ ',')
    (hfirst : ∀ a : α, ∃ c cs, g a = c :: cs ∧ c ≠ close)
    (hg : ∀ a ∈ as, ∀ b ∈ bs, ∀ r r', Ends (ofChars r) → Ends (ofChars r') → g a ++ r = g b ++ r' →
      a = b ∧ r = r')
    (h : commaSeparated (as.map g) ++ close :: r = commaSeparated (bs.map g) ++ close :: r') :
    as = bs ∧ r = r' := by
  have hne : ∀ (a : α) (as : List α) (r r' : List Char),
      close :: r ≠ commaSeparated ((a :: as).map g) ++ r' := by
    intro a as r r' heq
    obtain ⟨c, cs, hcs, hc⟩ := hfirst a
    rw [List.map_cons, commaSeparated_cons, hcs] at heq
    exact hc (List.cons.inj heq).1.symm
  cases as with
  | nil =>
    cases bs with
    | nil => exact ⟨rfl, (List.cons.inj h).2⟩
    | cons b bs => exact absurd h (hne b bs _ _)
  | cons a as =>
    cases bs with
    | nil => exact absurd h.symm (hne a as _ _)
    | cons b bs =>
      -- A comma before the first part on both sides makes all parts alike.
      refine flatMap_append_inj hclose hcomma hg ?_
      simpa [commaSeparated_cons, List.flatMap_map] using h

end

/-! ## All values -/

theorem write_arr_append (items : List Json) (r : List Char) :
    write (.arr items) ++ r = '[' :: (commaSeparated (items.map write) ++ ']' :: r) := by
  simp [write, writeItems_eq_map]

theorem write_obj_append (fields : List (Text × Json)) (r : List Char) :
    write (.obj fields) ++ r = '\x7b' ::
      (commaSeparated (fields.map writeField) ++ '\x7d' :: r) := by
  simp [write, writeFields_eq_map]

/-- **Values.** What is written for two regular values is the same only if they are, and only if
what follows is. -/
theorem write_append_inj (hv : v.isRegular) (hw : w.isRegular) (hr : Ends (ofChars r))
    (hr' : Ends (ofChars r')) (h : v.write ++ r = w.write ++ r') : v = w ∧ r = r' := by
  have hopening := opening_eq_of_append h
  induction v generalizing w r r' with
  | str s =>
    cases w with
    | str t =>
      obtain ⟨rfl, hrest⟩ :=
        writeString_append_inj (by simpa [isRegular] using hv) (by simpa [isRegular] using hw) h
      exact ⟨rfl, hrest⟩
    | _ => simp [opening] at hopening
  | arr items ih =>
    cases w with
    | arr items' =>
      rw [write_arr_append, write_arr_append, List.cons.injEq] at h
      have hfirst : ∀ v : Json, ∃ c cs, v.write = c :: cs ∧ c ≠ ']' := by
        intro v
        obtain ⟨c, cs, hcs, hopening⟩ := exists_write_eq_cons v
        refine ⟨c, cs, hcs, ?_⟩
        rintro rfl
        cases v <;> simp [opening, isInner, Char.isAlphanum] at hopening
      have hparts : ∀ v ∈ items, ∀ w ∈ items', ∀ r r', Ends (ofChars r) → Ends (ofChars r') →
          v.write ++ r = w.write ++ r' → v = w ∧ r = r' := by
        intro v hmem w hmem' r r' hr hr' h
        exact ih v hmem (isRegular_arr.1 hv v hmem) (isRegular_arr.1 hw w hmem') hr hr' h
          (opening_eq_of_append h)
      obtain ⟨rfl, hrest⟩ := commaSeparated_append_inj (by decide) (by decide) hfirst hparts h.2
      exact ⟨rfl, hrest⟩
    | _ => simp [opening] at hopening
  | obj fields ih =>
    cases w with
    | obj fields' =>
      rw [write_obj_append, write_obj_append, List.cons.injEq] at h
      have hfirst : ∀ f : Text × Json, ∃ c cs, writeField f = c :: cs ∧ c ≠ '\x7d' :=
        fun f => ⟨'"', _, rfl, by decide⟩
      have hparts : ∀ f ∈ fields, ∀ g ∈ fields', ∀ r r', Ends (ofChars r) → Ends (ofChars r') →
          writeField f ++ r = writeField g ++ r' → f = g ∧ r = r' := by
        intro f hf g hg r r' hr hr' h
        obtain ⟨hk, hvalue⟩ := (isRegular_obj.1 hv).2 f hf
        obtain ⟨hk', hvalue'⟩ := (isRegular_obj.1 hw).2 g hg
        refine writeField_append_inj hk hk' (fun h => ?_) h
        exact ih f hf hvalue hvalue' hr hr' h (opening_eq_of_append h)
      obtain ⟨rfl, hrest⟩ := commaSeparated_append_inj (by decide) (by decide) hfirst hparts h.2
      exact ⟨rfl, hrest⟩
    | _ => simp [opening] at hopening
  | _ =>
    have hword := isWord_iff_opening.2 (hopening.symm.trans rfl)
    obtain ⟨hwrite, hrest⟩ :=
      append_inj_of_ends (isInner_of_mem_write rfl) (isInner_of_mem_write hword) hr hr' h
    exact ⟨write_inj_of_isWord rfl hword hwrite, hrest⟩

end Dialectic.Json
