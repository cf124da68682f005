import Dialectic.Text.Basic

/-!
# Lines

Cutting a text into lines. A line ends at any of the characters of `isBreak`; a carriage return with
the line feed after it is one ending. A last line without an ending counts, and an ending at the
very end of the text opens no further line.
-/

namespace Dialectic.Text

/-- The characters that end a line. -/
def isBreak (c : Char) : Bool :=
  let n := c.toNat
  (10 ≤ n && n ≤ 13) || (0x1c ≤ n && n ≤ 0x1e) || n == 0x85 || n == 0x2028 || n == 0x2029

/-- The lines of the text whose first line begins with the reverse of `line`; `line` is `none` where
no line has begun. -/
def linesFrom : Option Text → Text → List Text
  | none, [] => []
  | some line, [] => [line.reverse]
  | line, .char '\r' :: .char '\n' :: rest => (line.getD []).reverse :: linesFrom none rest
  | line, c :: rest =>
    if c.is isBreak then (line.getD []).reverse :: linesFrom none rest
    else linesFrom (some (c :: line.getD [])) rest

/-- The lines of a text, without their endings. -/
def lines (t : Text) : List Text := linesFrom none t

@[simp] theorem lines_nil : lines [] = [] := rfl

/-! ## What lines are -/

/-- If a line was begun without line endings, no line has one. -/
theorem is_isBreak_eq_false_of_mem_linesFrom {start : Option Text} {cs line : Text}
    (hs : ∀ l ∈ start, ∀ c ∈ l, c.is isBreak = false) (h : line ∈ linesFrom start cs) :
    ∀ c ∈ line, c.is isBreak = false := by
  fun_induction linesFrom start cs with
  | case1 => simp at h
  | case2 l =>
    obtain rfl : line = l.reverse := by simpa using h
    simpa using hs
  | case3 start rest ih =>
    rcases List.mem_cons.1 h with rfl | h
    · cases start <;> simp_all
    · exact ih (by simp) h
  | case4 start c rest hb hc ih =>
    rcases List.mem_cons.1 h with rfl | h
    · cases start <;> simp_all
    · exact ih (by simp) h
  | case5 start c rest hb hc ih =>
    refine ih ?_ h
    cases start <;> simp_all

/-- No line has a character that ends a line. -/
theorem is_isBreak_eq_false_of_mem_lines {cs line : Text} (h : line ∈ lines cs) :
    ∀ c ∈ line, c.is isBreak = false :=
  is_isBreak_eq_false_of_mem_linesFrom (by simp) h

/-- A character that ends no line belongs to the line. -/
theorem linesFrom_cons_of_not_isBreak (start : Option Text) {c : CodePoint}
    (hc : c.is isBreak = false) (t : Text) :
    linesFrom start (c :: t) = linesFrom (some (c :: start.getD [])) t := by
  rw [linesFrom.eq_def]
  split
  · simp_all
  · simp_all
  · rename_i heq
    simp only [List.cons.injEq] at heq
    rw [heq.1] at hc
    exact absurd hc (by decide)
  · rename_i heq
    simp only [List.cons.injEq] at heq
    obtain ⟨rfl, rfl⟩ := heq
    rw [if_neg (by simp [hc])]

/-- A line feed ends the line. -/
theorem linesFrom_lineFeed (start : Option Text) (t : Text) :
    linesFrom start (.char '\n' :: t) = (start.getD []).reverse :: linesFrom none t := by
  rw [linesFrom.eq_def]
  split
  · simp_all
  · simp_all
  · rename_i heq
    simp at heq
  · rename_i heq
    simp only [List.cons.injEq] at heq
    obtain ⟨rfl, rfl⟩ := heq
    rw [if_pos (by decide)]

/-- A line goes on as long as no line ending comes. -/
theorem linesFrom_append (l : Text) {cs : Text} (h : ∀ c ∈ cs, c.is isBreak = false) (t : Text) :
    linesFrom (some l) (cs ++ t) = linesFrom (some (cs.reverse ++ l)) t := by
  induction cs generalizing l with
  | nil => rfl
  | cons c rest ih =>
    rw [List.cons_append, linesFrom_cons_of_not_isBreak _ (h c (by simp)),
      ih _ fun d hd => h d (List.mem_cons_of_mem _ hd)]
    simp

/-- There are no lines only where no line has begun and nothing follows. -/
theorem eq_nil_of_linesFrom_eq_nil {start : Option Text} {t : Text} (h : linesFrom start t = []) :
    start = none ∧ t = [] := by
  fun_induction linesFrom start t with
  | case1 => exact ⟨rfl, rfl⟩
  | case2 => simp at h
  | case3 => simp at h
  | case4 => simp at h
  | case5 _ _ _ _ _ ih => exact absurd (ih h).1 (by simp)

/-- A text without line endings is one line, if it is not empty. -/
theorem lines_of_forall_isBreak {cs : Text} (hne : cs ≠ []) (h : ∀ c ∈ cs, c.is isBreak = false) :
    lines cs = [cs] := by
  cases cs with
  | nil => exact absurd rfl hne
  | cons c rest =>
    rw [lines, linesFrom_cons_of_not_isBreak _ (h c (by simp)), ← List.append_nil rest,
      linesFrom_append _ fun d hd => h d (List.mem_cons_of_mem _ hd)]
    simp [linesFrom]

/-- What stands before the first line feed is the first line. -/
theorem lines_append_lineFeed {cs : Text} (h : ∀ c ∈ cs, c.is isBreak = false) (t : Text) :
    lines (cs ++ .char '\n' :: t) = cs :: lines t := by
  cases cs with
  | nil => exact linesFrom_lineFeed none t
  | cons c rest =>
    rw [List.cons_append, lines, linesFrom_cons_of_not_isBreak _ (h c (by simp)),
      linesFrom_append _ fun d hd => h d (List.mem_cons_of_mem _ hd), linesFrom_lineFeed]
    simp [lines]

/-! ## Splitting at a separator -/

variable {α : Type} [DecidableEq α]

/-- The pieces of a list between the occurrences of a separator; there is always at least one. -/
def pieces (sep : α) : List α → List (List α)
  | [] => [[]]
  | c :: rest =>
    match pieces sep rest with
    | [] => [[]]
    | piece :: pieces => if c = sep then [] :: piece :: pieces else (c :: piece) :: pieces

/-- Splitting gives at least one piece. -/
theorem pieces_ne_nil (sep : α) (cs : List α) : pieces sep cs ≠ [] := by
  cases cs with
  | nil => simp [pieces]
  | cons c rest =>
    rw [pieces]
    split
    · simp
    · split <;> simp

/-- At the separator a piece ends. -/
theorem pieces_cons_self (sep : α) (cs : List α) :
    pieces sep (sep :: cs) = [] :: pieces sep cs := by
  rw [pieces]
  split
  · exact absurd ‹_› (pieces_ne_nil sep cs)
  · simp [*]

/-- At any other character the first piece goes on. -/
theorem pieces_cons_of_ne {sep c : α} (h : c ≠ sep) (cs : List α) :
    ∃ piece rest, pieces sep cs = piece :: rest ∧ pieces sep (c :: cs) = (c :: piece) :: rest := by
  rw [pieces]
  split
  · exact absurd ‹_› (pieces_ne_nil sep cs)
  · exact ⟨_, _, ‹_›, by simp [h]⟩

/-- No piece has the separator. -/
theorem sep_not_mem_of_mem_pieces {sep : α} {cs piece : List α} (h : piece ∈ pieces sep cs) :
    sep ∉ piece := by
  induction cs generalizing piece with
  | nil =>
    obtain rfl : piece = [] := by simpa [pieces] using h
    simp
  | cons c cs ih =>
    by_cases hc : c = sep
    · subst hc
      rw [pieces_cons_self] at h
      rcases List.mem_cons.1 h with rfl | h
      · simp
      · exact ih h
    · obtain ⟨first, rest, hp, he⟩ := pieces_cons_of_ne hc cs
      rw [he] at h
      rcases List.mem_cons.1 h with rfl | h
      · simp only [List.mem_cons, not_or]
        exact ⟨Ne.symm hc, ih (by simp [hp])⟩
      · exact ih (by simp [hp, h])

/-- A list without the separator is one piece. -/
theorem pieces_of_not_mem {sep : α} {cs : List α} (h : sep ∉ cs) : pieces sep cs = [cs] := by
  induction cs with
  | nil => rfl
  | cons c cs ih =>
    simp only [List.mem_cons, not_or] at h
    obtain ⟨piece, rest, hp, he⟩ := pieces_cons_of_ne (Ne.symm h.1) cs
    rw [ih h.2, List.cons.injEq] at hp
    rw [he, ← hp.1, ← hp.2]

/-- What stands before the first separator is the first piece. -/
theorem pieces_append_cons {sep : α} {cs : List α} (h : sep ∉ cs) (rest : List α) :
    pieces sep (cs ++ sep :: rest) = cs :: pieces sep rest := by
  induction cs with
  | nil => exact pieces_cons_self sep rest
  | cons c cs ih =>
    simp only [List.mem_cons, not_or] at h
    obtain ⟨piece, pieces, hp, he⟩ := pieces_cons_of_ne (Ne.symm h.1) (cs ++ sep :: rest)
    rw [ih h.2, List.cons.injEq] at hp
    rw [List.cons_append, he, ← hp.1, ← hp.2]

/-- The pieces with the separator between them are the list. -/
theorem intercalate_pieces (sep : α) (cs : List α) :
    List.intercalate [sep] (pieces sep cs) = cs := by
  induction cs with
  | nil => simp [pieces, List.intercalate]
  | cons c cs ih =>
    by_cases hc : c = sep
    · subst hc
      rw [pieces_cons_self]
      cases hp : pieces c cs with
      | nil => exact absurd hp (pieces_ne_nil c cs)
      | cons first rest =>
        rw [hp] at ih
        rw [List.intercalate_cons_cons, ih]
        rfl
    · obtain ⟨first, rest, hp, he⟩ := pieces_cons_of_ne hc cs
      rw [he]
      rw [hp] at ih
      cases rest with
      | nil => simpa [List.intercalate] using ih
      | cons second rest =>
        rw [List.intercalate_cons_cons] at ih ⊢
        simp [← ih]

end Dialectic.Text
