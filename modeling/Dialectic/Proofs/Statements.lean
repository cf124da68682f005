import Dialectic.Apx.Writer
import Mathlib.Data.List.TakeWhile

/-!
# Statements and their names

A text is a statement if it is an identifier, blanks, and a body in parentheses, after which only
blanks and a full stop may stand (`statement?_eq_some_iff`). The names in statements of one line are
exactly the texts that are written as names (`isWritable_iff`, `isName_of_ofTrimmed_eq_arg`), and
the line that is written for an argument or an attack is read as what it was written for
(`ofTrimmed_argLine`, `ofTrimmed_attLine`).
-/

namespace Dialectic

/-! ## Runs of characters -/

section Runs

variable {α : Type} {p : α → Bool} {w rest : List α}

/-- A run ends where what follows begins with something else. -/
theorem takeWhile_append_eq (hw : ∀ c ∈ w, p c) (hr : ∀ c ∈ rest.head?, p c = false) :
    (w ++ rest).takeWhile p = w := by
  rw [List.takeWhile_append_of_pos hw]
  cases rest with
  | nil => simp
  | cons c rest => simp [hr c rfl]

theorem dropWhile_append_eq (hw : ∀ c ∈ w, p c) (hr : ∀ c ∈ rest.head?, p c = false) :
    (w ++ rest).dropWhile p = rest := by
  rw [List.dropWhile_append_of_pos hw]
  cases rest with
  | nil => rfl
  | cons c rest => simp [hr c rfl]

theorem mem_of_mem_trimBy {c : α} (h : c ∈ Text.trimBy p w) : c ∈ w := by
  rw [Text.trimBy, List.mem_reverse] at h
  have h := (List.dropWhile_suffix p).subset h
  rw [List.mem_reverse] at h
  exact (List.dropWhile_suffix p).subset h

theorem mem_of_mem_pieces [DecidableEq α] {sep c : α} {piece : List α}
    (h : piece ∈ Text.pieces sep w) (hc : c ∈ piece) : c ∈ w := by
  induction w generalizing piece with
  | nil =>
    obtain rfl : piece = [] := by simpa [Text.pieces] using h
    simp at hc
  | cons d w ih =>
    by_cases hd : d = sep
    · subst hd
      rw [Text.pieces_cons_self] at h
      rcases List.mem_cons.1 h with rfl | h
      · simp at hc
      · exact List.mem_cons_of_mem _ (ih h hc)
    · obtain ⟨first, others, hp, he⟩ := Text.pieces_cons_of_ne hd w
      rw [he] at h
      rcases List.mem_cons.1 h with rfl | h
      · rcases List.mem_cons.1 hc with rfl | hc
        · exact List.mem_cons_self
        · exact List.mem_cons_of_mem _ (ih (by simp [hp]) hc)
      · exact List.mem_cons_of_mem _ (ih (by simp [hp, h]) hc)

end Runs

/-! ## Single lines -/

namespace Text

variable {t m : Text} {start : Option Text}

/-- A text that is one line without blanks around it, or nothing. -/
structure IsTrimmedLine (t : Text) : Prop where
  /-- It neither begins nor ends with a blank. -/
  trim_eq : trim t = t
  /-- It has no line ending. -/
  isBreak : ∀ c ∈ t, c.is isBreak = false

theorem isBlank_of_isBreak {c : Char} (h : isBreak c) : isBlank c := by
  simp only [isBreak, isBlank, isWhite, Bool.or_eq_true, Bool.and_eq_true, decide_eq_true_eq,
    beq_iff_eq] at h ⊢
  omega

theorem is_isBreak_of_is_isBlank {c : CodePoint} (h : c.is isBlank = false) :
    c.is isBreak = false := by
  cases c with
  | surrogate u => rfl
  | char c =>
    cases hc : isBreak c with
    | false => exact hc
    | true => simp [isBlank_of_isBreak hc] at h

/-- A text that is one line has no line ending, unless it ends with one. -/
theorem isBreak_of_length_linesFrom (h : (linesFrom start t).length = 1) :
    (∀ c ∈ t, c.is isBreak = false) ∨ ∃ c ∈ t.getLast?, c.is isBreak := by
  fun_induction linesFrom start t with
  | case1 => simp
  | case2 => simp
  | case3 start rest ih =>
    cases rest with
    | nil => exact .inr ⟨.char '\n', rfl, by decide⟩
    | cons c rest =>
      have hrest := List.eq_nil_of_length_eq_zero (Nat.succ.inj h)
      simpa using (eq_nil_of_linesFrom_eq_nil hrest).2
  | case4 start c rest _ hc ih =>
    cases rest with
    | nil => exact .inr ⟨c, rfl, hc⟩
    | cons d rest =>
      have hrest := List.eq_nil_of_length_eq_zero (Nat.succ.inj h)
      simpa using (eq_nil_of_linesFrom_eq_nil hrest).2
  | case5 start c rest _ hc ih =>
    rcases ih h with hall | ⟨d, hd, hbreak⟩
    · left
      simpa [hc] using hall
    · right
      refine ⟨d, ?_, hbreak⟩
      rw [List.getLast?_cons, Option.mem_def.1 hd]
      rfl

/-- A text that neither begins nor ends with a blank is one line exactly if it has characters and no
line ending. -/
theorem length_lines_eq_one_iff (ht : trim t = t) :
    (lines t).length = 1 ↔ t ≠ [] ∧ ∀ c ∈ t, c.is isBreak = false := by
  constructor
  · intro h
    refine ⟨fun h₀ => by simp [h₀] at h, ?_⟩
    rcases isBreak_of_length_linesFrom h with hall | ⟨c, hc, hbreak⟩
    · exact hall
    · -- A line ending at the end is a blank there, and would have been trimmed.
      rw [← ht] at hc
      have hblank : c.is isBlank = false := eq_false_of_mem_getLast?_trimBy hc
      simp [is_isBreak_of_is_isBlank hblank] at hbreak
  · rintro ⟨hne, hall⟩
    rw [lines_of_forall_isBreak hne hall]
    rfl

end Text

namespace Apx

variable {t p b m origin target : Text} {names : List Text} {c : CodePoint}

/-! ## Names -/

/-- A text that a statement can have as a name. -/
structure IsName (m : Text) : Prop extends Text.IsTrimmedLine m where
  /-- It is not empty. -/
  ne_nil : m ≠ []
  /-- It has no parenthesis. -/
  isBodyPoint : ∀ c ∈ m, isBodyPoint c
  /-- It has no comma. -/
  comma_not_mem : .char ',' ∉ m

/-- A character is reserved if it ends a line, separates names or encloses them. -/
theorem is_isReserved_iff :
    c.is isReserved ↔ c = .char ',' ∨ isBodyPoint c = false ∨ c = .char '\r' ∨ c = .char '\n' := by
  cases c with
  | surrogate u => simp [isBodyPoint]
  | char c =>
    simp only [CodePoint.is_char, isReserved, isBodyPoint, Bool.or_eq_true, beq_iff_eq,
      Bool.and_eq_false_iff, bne_eq_false_iff_eq, CodePoint.char.injEq, or_assoc]

/-- **Writable names.** What is written as a name is exactly what can be a name. -/
theorem isWritable_iff : isWritable m ↔ IsName m := by
  simp only [isWritable, Bool.and_eq_true, beq_iff_eq, Bool.not_eq_true', List.any_eq_false]
  constructor
  · rintro ⟨⟨htrim, hlines⟩, hreserved⟩
    obtain ⟨hne, hbreak⟩ := (Text.length_lines_eq_one_iff htrim).1 hlines
    refine ⟨⟨htrim, hbreak⟩, hne, fun c hc => ?_, fun hcomma => ?_⟩
    · cases hb : isBodyPoint c with
      | true => rfl
      | false => exact absurd (is_isReserved_iff.2 (.inr (.inl hb))) (hreserved c hc)
    · exact hreserved _ hcomma (is_isReserved_iff.2 (.inl rfl))
  · intro h
    refine ⟨⟨h.trim_eq, (Text.length_lines_eq_one_iff h.trim_eq).2 ⟨h.ne_nil, h.isBreak⟩⟩,
      fun c hc hr => ?_⟩
    rcases is_isReserved_iff.1 hr with rfl | hb | rfl | rfl
    · exact h.comma_not_mem hc
    · simp [h.isBodyPoint c hc] at hb
    · exact absurd (h.isBreak _ hc) (by decide)
    · exact absurd (h.isBreak _ hc) (by decide)

/-! ## Statements -/

/-- A text that can stand before the parentheses of a statement. -/
def IsIdentifier (p : Text) : Prop :=
  ∃ c rest, p = c :: rest ∧ c.is Text.isWordStart ∧ ∀ d ∈ rest, d.is Text.isWord

theorem IsIdentifier.is_isBlank (hp : IsIdentifier p) : ∀ c ∈ p, c.is Text.isBlank = false := by
  obtain ⟨c, rest, rfl, hstart, hrest⟩ := hp
  have hword : ∀ d ∈ c :: rest, d.is Text.isWord := by
    intro d hd
    rcases List.mem_cons.1 hd with rfl | hd
    · cases d with
      | char d => exact Text.isWord_of_isWordStart hstart
      | surrogate u => cases hstart
    · exact hrest d hd
  intro d hd
  cases hblank : d.is Text.isBlank with
  | false => rfl
  | true =>
    cases d with
    | char d => simpa [Text.isWord_eq_false_of_isBlank hblank] using hword _ hd
    | surrogate u => cases hblank

/-- What stands between the identifier and the body of a statement ends the identifier. -/
theorem is_isWord_eq_false_of_mem_head? {blanks inner : Text}
    (h : ∀ c ∈ blanks, c.is Text.isBlank) :
    ∀ c ∈ (blanks ++ .char '(' :: inner).head?, c.is Text.isWord = false := by
  intro c hc
  cases blanks with
  | nil =>
    obtain rfl : c = .char '(' := by simpa using hc.symm
    decide
  | cons d blanks =>
    obtain rfl : d = c := by simpa using hc
    have hd := h d List.mem_cons_self
    cases d with
    | surrogate u => rfl
    | char d => exact Text.isWord_eq_false_of_isBlank hd

/-- **Statements.** A text states a predicate of a body exactly if it is the predicate, an
identifier, then blanks, and then the body in parentheses, in which there are no parentheses, with
nothing but an ending after it. -/
theorem statement?_eq_some_iff :
    statement? t = some (p, b) ↔ IsIdentifier p ∧ (∀ c ∈ b, isBodyPoint c) ∧
      ∃ blanks ending, (∀ c ∈ blanks, c.is Text.isBlank) ∧ isEnding ending ∧
        t = p ++ (blanks ++ .char '(' :: (b ++ .char ')' :: ending)) := by
  constructor
  · intro h
    unfold statement? at h
    split at h
    · simp at h
    · rename_i c rest
      split at h
      · rename_i hstart
        split at h
        · rename_i inner hinner
          split at h
          · rename_i ending hending
            split at h
            · rename_i hend
              simp only [Option.some.injEq, Prod.mk.injEq] at h
              obtain ⟨rfl, rfl⟩ := h
              refine ⟨⟨c, _, rfl, hstart, fun d hd => List.mem_takeWhile_imp hd⟩,
                fun d hd => List.mem_takeWhile_imp hd,
                (rest.dropWhile (·.is Text.isWord)).takeWhile (·.is Text.isBlank), ending,
                fun d hd => List.mem_takeWhile_imp hd, hend, ?_⟩
              -- What was cut off, run by run, is put together again from the end.
              rw [← hending, List.takeWhile_append_dropWhile, ← hinner,
                List.takeWhile_append_dropWhile, List.cons_append, List.takeWhile_append_dropWhile]
            · simp at h
          · simp at h
        · simp at h
      · simp at h
  · rintro ⟨⟨c, rest, rfl, hstart, hrest⟩, hbody, blanks, ending, hblanks, hend, rfl⟩
    -- Each run ends where the next part begins, because that begins with a character of another
    -- kind.
    have hword : ∀ c ∈ (blanks ++ CodePoint.char '(' :: (b ++ .char ')' :: ending)).head?,
        c.is Text.isWord = false :=
      is_isWord_eq_false_of_mem_head? hblanks
    have hopen : ∀ c ∈ (CodePoint.char '(' :: (b ++ .char ')' :: ending)).head?,
        c.is Text.isBlank = false := by
      simp only [List.head?_cons, Option.mem_def, Option.some.injEq]
      rintro _ rfl
      decide
    have hclose : ∀ c ∈ (CodePoint.char ')' :: ending).head?, isBodyPoint c = false := by
      simp only [List.head?_cons, Option.mem_def, Option.some.injEq]
      rintro _ rfl
      decide
    rw [List.cons_append, statement?, if_pos hstart, dropWhile_append_eq hrest hword,
      takeWhile_append_eq hrest hword, dropWhile_append_eq hblanks hopen]
    simp only [dropWhile_append_eq hbody hclose, takeWhile_append_eq hbody hclose, hend, if_true]

/-! ## The names of a body -/

/-- The names of a body are names, if they are not empty and the body is on one line. -/
theorem isName_of_mem_namesOf (hb : ∀ c ∈ b, isBodyPoint c)
    (hl : ∀ c ∈ b, c.is Text.isBreak = false) (h : m ∈ namesOf b) (hm : m ≠ []) : IsName m := by
  obtain ⟨piece, hpiece, rfl⟩ := List.mem_map.1 h
  have hmem : ∀ c ∈ Text.trim piece, c ∈ piece := fun c hc => mem_of_mem_trimBy hc
  refine ⟨⟨Text.trimBy_trimBy _ _, fun c hc => ?_⟩, hm, fun c hc => ?_, fun hc => ?_⟩
  · exact hl c (mem_of_mem_pieces hpiece (hmem c hc))
  · exact hb c (mem_of_mem_pieces hpiece (hmem c hc))
  · exact Text.sep_not_mem_of_mem_pieces hpiece (hmem _ hc)

/-- A name alone is a list of one name. -/
theorem namesOf_of_isName (h : IsName m) : namesOf m = [m] := by
  rw [namesOf, Text.pieces_of_not_mem h.comma_not_mem, List.map_singleton, h.trim_eq]

/-- Two names with a comma between them are a list of two. -/
theorem namesOf_of_isName_of_isName (ho : IsName origin) (ht : IsName target) :
    namesOf (origin ++ .char ',' :: target) = [origin, target] := by
  rw [namesOf, Text.pieces_append_cons ho.comma_not_mem, Text.pieces_of_not_mem ht.comma_not_mem]
  simp [ho.trim_eq, ht.trim_eq]

/-! ## What lines say -/

/-- The predicate of arguments. -/
def argWord : Text := [.char 'a', .char 'r', .char 'g']

/-- The predicate of attacks. -/
def attWord : Text := [.char 'a', .char 't', .char 't']

theorem isIdentifier_argWord : IsIdentifier argWord := ⟨_, _, rfl, by decide, by decide⟩

theorem isIdentifier_attWord : IsIdentifier attWord := ⟨_, _, rfl, by decide, by decide⟩

/-- A statement declares a name exactly if it has the first word and one name that is not empty. -/
theorem ofStatement_eq_arg_iff :
    Line.ofStatement p names = .arg m ↔ p = argWord ∧ names = [m] ∧ m ≠ [] := by
  constructor
  · intro h
    unfold Line.ofStatement at h
    split at h
    · rename_i hp
      split at h
      · split at h
        · cases h
        · rename_i hname
          obtain rfl := Line.arg.inj h
          exact ⟨hp, rfl, hname⟩
      · cases h
    · split at h
      · split at h
        · split at h <;> cases h
        · cases h
      · cases h
  · rintro ⟨rfl, rfl, hm⟩
    simp [Line.ofStatement, argWord, hm]

/-- It is an attack exactly if it has the second word and two names that are not empty. -/
theorem ofStatement_eq_att_iff : Line.ofStatement p names = .att origin target ↔
    p = attWord ∧ names = [origin, target] ∧ origin ≠ [] ∧ target ≠ [] := by
  constructor
  · intro h
    unfold Line.ofStatement at h
    split at h
    · split at h
      · split at h <;> cases h
      · cases h
    · split at h
      · rename_i hp
        split at h
        · split at h
          · cases h
          · rename_i hne
            obtain ⟨rfl, rfl⟩ := Line.att.inj h
            exact ⟨hp, rfl, not_or.1 hne⟩
        · cases h
      · cases h
  · rintro ⟨rfl, rfl, ho, ht⟩
    simp [Line.ofStatement, attWord, ho, ht]

/-- What a statement says is what its line says: it begins neither with a comment sign nor with
nothing. -/
theorem ofTrimmed_of_statement? (h : statement? t = some (p, b)) :
    Line.ofTrimmed t = .ofStatement p (namesOf b) := by
  obtain ⟨⟨c, rest, rfl, hstart, -⟩, -, blanks, ending, -, -, rfl⟩ := statement?_eq_some_iff.1 h
  have hsign : ¬ (c = .char '#' ∨ c = .char '%') := by
    rintro (rfl | rfl) <;> exact absurd hstart (by decide)
  rw [List.cons_append] at h ⊢
  simp only [Line.ofTrimmed, if_neg hsign, h]

/-- A line that says neither nothing nor something unreadable is a statement. -/
theorem exists_statement?_of_ofTrimmed (h : Line.ofTrimmed t ≠ .silent)
    (h' : Line.ofTrimmed t ≠ .bad .notStatement) : ∃ p b, statement? t = some (p, b) := by
  cases hs : statement? t with
  | some s => exact ⟨s.1, s.2, rfl⟩
  | none =>
    cases t with
    | nil => exact absurd rfl h
    | cons c rest =>
      simp only [Line.ofTrimmed, hs] at h h'
      split at h <;> simp_all

/-- A line declares an argument exactly if it is a statement of the predicate `arg` with one
name. -/
theorem ofTrimmed_eq_arg_iff :
    Line.ofTrimmed t = .arg m ↔
      ∃ b, statement? t = some (argWord, b) ∧ namesOf b = [m] ∧ m ≠ [] := by
  constructor
  · intro h
    obtain ⟨p, b, hs⟩ := exists_statement?_of_ofTrimmed (t := t) (by simp [h]) (by simp [h])
    rw [ofTrimmed_of_statement? hs] at h
    obtain ⟨rfl, hm⟩ := ofStatement_eq_arg_iff.1 h
    exact ⟨b, hs, hm⟩
  · rintro ⟨b, hs, hm⟩
    rw [ofTrimmed_of_statement? hs]
    exact ofStatement_eq_arg_iff.2 ⟨rfl, hm⟩

/-- A line declares an attack exactly if it is a statement of the predicate `att` with two names. -/
theorem ofTrimmed_eq_att_iff :
    Line.ofTrimmed t = .att origin target ↔
      ∃ b, statement? t = some (attWord, b) ∧ namesOf b = [origin, target] ∧ origin ≠ [] ∧
        target ≠ [] := by
  constructor
  · intro h
    obtain ⟨p, b, hs⟩ := exists_statement?_of_ofTrimmed (t := t) (by simp [h]) (by simp [h])
    rw [ofTrimmed_of_statement? hs] at h
    obtain ⟨rfl, hm⟩ := ofStatement_eq_att_iff.1 h
    exact ⟨b, hs, hm⟩
  · rintro ⟨b, hs, hm⟩
    rw [ofTrimmed_of_statement? hs]
    exact ofStatement_eq_att_iff.2 ⟨rfl, hm⟩

/-- A line without line endings in it declares what is a name. -/
theorem isName_of_ofTrimmed_eq_arg (ht : ∀ c ∈ t, c.is Text.isBreak = false)
    (h : Line.ofTrimmed t = .arg m) : IsName m := by
  obtain ⟨b, hs, hb, hm⟩ := ofTrimmed_eq_arg_iff.1 h
  obtain ⟨-, hbody, blanks, ending, -, -, rfl⟩ := statement?_eq_some_iff.1 hs
  refine isName_of_mem_namesOf hbody (fun c hc => ht c ?_) (by simp [hb]) hm
  simp [hc]

/-! ## Written lines -/

/-- The line that states a predicate of a body. -/
def stated (p b : Text) : Text := p ++ .char '(' :: (b ++ [.char ')', .char '.'])

theorem argLine_eq (m : Text) : argLine m = stated argWord m := by
  simp [argLine, stated, argWord, Text.ofString]

theorem attLine_eq (origin target : Text) :
    attLine origin target = stated attWord (origin ++ .char ',' :: target) := by
  simp [attLine, stated, attWord, Text.ofString]

/-- A statement with an identifier and a body is read as these. -/
theorem statement?_stated (hp : IsIdentifier p) (hb : ∀ c ∈ b, isBodyPoint c) :
    statement? (stated p b) = some (p, b) :=
  statement?_eq_some_iff.2 ⟨hp, hb, [], [.char '.'], by simp, by decide, rfl⟩

/-- A statement of a body on one line is one line, which begins with a letter and ends with a full
stop. -/
theorem isTrimmedLine_stated (hp : IsIdentifier p) (hb : ∀ c ∈ b, c.is Text.isBreak = false) :
    Text.IsTrimmedLine (stated p b) := by
  refine ⟨Text.trimBy_eq_self ?_ ?_, ?_⟩
  · obtain ⟨c, rest, rfl, -⟩ := id hp
    simpa [stated] using hp.is_isBlank c List.mem_cons_self
  · simp only [stated, List.getLast?_append, List.getLast?_cons, List.getLast?_nil]
    simp
    decide
  · simp only [stated, List.mem_append, List.mem_cons, List.not_mem_nil, or_false]
    rintro c (hc | rfl | hc | rfl | rfl)
    · exact Text.is_isBreak_of_is_isBlank (hp.is_isBlank c hc)
    · decide
    · exact hb c hc
    · decide
    · decide

/-- What holds of the points of two names, and of the comma, holds of the points of the body that
they make. -/
theorem forall_mem_attBody {q : CodePoint → Prop} (ho : ∀ c ∈ origin, q c) (ht : ∀ c ∈ target, q c)
    (hcomma : q (.char ',')) : ∀ c ∈ origin ++ .char ',' :: target, q c := by
  simp only [List.mem_append, List.mem_cons]
  rintro c (hc | rfl | hc)
  · exact ho c hc
  · exact hcomma
  · exact ht c hc

/-- The line for a name has no blanks at its ends and no break. -/
theorem isTrimmedLine_argLine (h : IsName m) : Text.IsTrimmedLine (argLine m) := by
  rw [argLine_eq]
  exact isTrimmedLine_stated isIdentifier_argWord h.isBreak

theorem isTrimmedLine_attLine (ho : IsName origin) (ht : IsName target) :
    Text.IsTrimmedLine (attLine origin target) := by
  rw [attLine_eq]
  exact isTrimmedLine_stated isIdentifier_attWord
    (forall_mem_attBody ho.isBreak ht.isBreak (by decide))

/-- The line that is written for an argument is read as the declaration of the argument. -/
theorem ofTrimmed_argLine (h : IsName m) : Line.ofTrimmed (argLine m) = .arg m := by
  rw [argLine_eq, ofTrimmed_eq_arg_iff]
  exact ⟨m, statement?_stated isIdentifier_argWord h.isBodyPoint, namesOf_of_isName h, h.ne_nil⟩

/-- The line that is written for an attack is read as the declaration of the attack. -/
theorem ofTrimmed_attLine (ho : IsName origin) (ht : IsName target) :
    Line.ofTrimmed (attLine origin target) = .att origin target := by
  have hbody := forall_mem_attBody ho.isBodyPoint ht.isBodyPoint (by decide)
  rw [attLine_eq, ofTrimmed_eq_att_iff]
  exact ⟨_, statement?_stated isIdentifier_attWord hbody, namesOf_of_isName_of_isName ho ht,
    ho.ne_nil, ht.ne_nil⟩

end Apx

end Dialectic
