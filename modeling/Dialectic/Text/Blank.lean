import Dialectic.Text.Basic

/-!
# White space

The white space characters, and trimming a text at both ends. The set is Unicode's white space with
the four information separators `U+001C` to `U+001F`.
-/

namespace Dialectic.Text

/-! ## The characters -/

/-- Unicode white space. -/
def isWhite (c : Char) : Bool :=
  let n := c.toNat
  (9 ≤ n && n ≤ 13) || n == 0x20 || n == 0x85 || n == 0xa0 || n == 0x1680 ||
    (0x2000 ≤ n && n ≤ 0x200a) || n == 0x2028 || n == 0x2029 || n == 0x202f || n == 0x205f ||
    n == 0x3000

/-- Unicode white space and the four information separators. -/
def isBlank (c : Char) : Bool := isWhite c || (0x1c ≤ c.toNat && c.toNat ≤ 0x1f)

/-- The letters and digits of ASCII by their code points. -/
theorem isAlphanum_iff {c : Char} : c.isAlphanum ↔
    (0x41 ≤ c.toNat ∧ c.toNat ≤ 0x5a ∨ 0x61 ≤ c.toNat ∧ c.toNat ≤ 0x7a) ∨
      0x30 ≤ c.toNat ∧ c.toNat ≤ 0x39 := by
  rw [show c.isAlphanum =
    (decide ('A'.val ≤ c.val ∧ c.val ≤ 'Z'.val) ||
      (decide ('a'.val ≤ c.val) && decide (c.val ≤ 'z'.val)) ||
      (decide ('0'.val ≤ c.val) && decide (c.val ≤ '9'.val))) from rfl]
  simp only [Bool.or_eq_true, Bool.and_eq_true, decide_eq_true_eq, UInt32.le_iff_toNat_le]
  exact Iff.rfl

/-! ## Trimming -/

/-- A list without the members of a class at its ends. -/
def trimBy {α : Type} (p : α → Bool) (cs : List α) : List α :=
  ((cs.dropWhile p).reverse.dropWhile p).reverse

/-- The first item of a trimmed list is not of the class. -/
theorem eq_false_of_mem_head?_trimBy {α : Type} {p : α → Bool} {cs : List α} {c : α}
    (h : c ∈ (trimBy p cs).head?) : p c = false := by
  have hpre : trimBy p cs <+: cs.dropWhile p := by
    have := List.dropWhile_suffix p (l := (cs.dropWhile p).reverse)
    rw [← List.reverse_prefix] at this
    simpa [trimBy] using this
  obtain ⟨rest, hrest⟩ := hpre
  have hh : c ∈ (cs.dropWhile p).head? := by
    rw [← hrest]
    cases ht : trimBy p cs with
    | nil => simp [ht] at h
    | cons d ds => simpa [ht] using h
  have := List.head?_dropWhile_not p cs
  rw [Option.mem_def.1 hh] at this
  simpa using this

/-- The last item of a trimmed list is not of the class. -/
theorem eq_false_of_mem_getLast?_trimBy {α : Type} {p : α → Bool} {cs : List α} {c : α}
    (h : c ∈ (trimBy p cs).getLast?) : p c = false := by
  rw [trimBy, List.getLast?_reverse] at h
  have := List.head?_dropWhile_not p (cs.dropWhile p).reverse
  rw [Option.mem_def.1 h] at this
  simpa using this

/-- A list that neither begins nor ends with a member of the class is its own trimming. -/
theorem trimBy_eq_self {α : Type} {p : α → Bool} {cs : List α} (hh : ∀ c ∈ cs.head?, p c = false)
    (hl : ∀ c ∈ cs.getLast?, p c = false) : trimBy p cs = cs := by
  have keep : ∀ {ds : List α}, (∀ c ∈ ds.head?, p c = false) → ds.dropWhile p = ds := by
    intro ds h
    cases ds with
    | nil => rfl
    | cons d ds =>
      have := h d (by simp)
      simp [this]
  rw [trimBy, keep hh, keep (by simpa using hl), List.reverse_reverse]

/-- Trimming twice is trimming once. -/
theorem trimBy_trimBy {α : Type} (p : α → Bool) (cs : List α) :
    trimBy p (trimBy p cs) = trimBy p cs :=
  trimBy_eq_self (fun _ => eq_false_of_mem_head?_trimBy) fun _ => eq_false_of_mem_getLast?_trimBy

/-- The text between its leading and its trailing blanks. -/
def trim (t : Text) : Text := trimBy (·.is isBlank) t

@[simp] theorem trim_nil : trim [] = [] := rfl

end Dialectic.Text
