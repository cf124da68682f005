import Dialectic.Proofs.Strictness
import Dialectic.Proofs.Trimming

/-!
# The grammar of texts

What texts are in APX, said without reading them: the forms that a line can have (`HasForm`), and
which texts consist of such lines (`IsGrammatical`). A line without blanks around it has the form
that it is read by, and no other (`hasForm_iff`). Main statement: a strict reading succeeds on
exactly the texts of the grammar, with the names in the order in which they are first declared, and
the attacks in that of their lines (`read_strict_exact`).
-/

namespace Dialectic

/-! ## Lists in the order of their first members -/

/-- Whether a list has the members of another, each once, in the order in which they first come
there. -/
structure IsFirstOrder (names given : List Text) : Prop where
  /-- The members are the same. -/
  mem_iff : ∀ m, m ∈ names ↔ m ∈ given
  /-- What comes first there comes first. -/
  pairwise : names.Pairwise fun m m' => given.idxOf m < given.idxOf m'

/-- Names in the order in which they were first seen are in first order. -/
theorem isFirstOrder_firstSeen (given : List Text) :
    IsFirstOrder (Framework.firstSeen given) given := by
  refine ⟨fun m => Framework.mem_firstSeen, ?_⟩
  induction given with
  | nil => exact .nil
  | cons x given ih =>
    rw [Framework.firstSeen, List.pairwise_cons]
    have hidx : ∀ m, m ≠ x → (x :: given).idxOf m = given.idxOf m + 1 := fun m hm =>
      List.idxOf_cons_ne _ (Ne.symm hm)
    constructor
    · intro m hm
      have hne : m ≠ x := by simpa using (List.mem_filter.1 hm).2
      rw [List.idxOf_cons_self, hidx m hne]
      omega
    · refine (ih.filter _).imp_of_mem fun {m m'} hm hm' hlt => ?_
      have hne : m ≠ x := by simpa using (List.mem_filter.1 hm).2
      have hne' : m' ≠ x := by simpa using (List.mem_filter.1 hm').2
      rw [hidx m hne, hidx m' hne']
      omega

/-- There is one such list. -/
theorem IsFirstOrder.eq_firstSeen {names given : List Text} (h : IsFirstOrder names given) :
    names = Framework.firstSeen given := by
  have hfirst := isFirstOrder_firstSeen given
  have hnodup : names.Nodup := h.pairwise.imp fun {m m'} hlt heq => by simp [heq] at hlt
  have hperm : names.Perm (Framework.firstSeen given) := by
    rw [List.perm_ext_iff_of_nodup hnodup (Framework.nodup_firstSeen given)]
    intro m
    rw [h.mem_iff, hfirst.mem_iff]
  exact hperm.eq_of_pairwise (fun _ _ _ _ hlt hgt => absurd hlt (by omega)) h.pairwise
    hfirst.pairwise

namespace Apx

variable {t m origin target : Text} {line : Line}

/-! ## The forms of lines -/

/-- A run of blanks, which may be empty. -/
def IsBlanks (t : Text) : Prop := ∀ c ∈ t, c.is Text.isBlank

/-- A text that can stand for an argument: it is not empty, has no blanks around it, and no commas
or parentheses. -/
structure IsBareName (m : Text) : Prop where
  /-- It is not empty. -/
  ne_nil : m ≠ []
  /-- It neither begins nor ends with a blank. -/
  trim_eq : Text.trim m = m
  /-- It has neither a comma nor a parenthesis. -/
  not_mem : .char ',' ∉ m ∧ .char '(' ∉ m ∧ .char ')' ∉ m

/-- A name with blanks around it. -/
def IsPadded (m t : Text) : Prop :=
  IsBareName m ∧ ∃ before after, IsBlanks before ∧ IsBlanks after ∧ t = before ++ m ++ after

/-- What may stand after the parentheses: blanks, and perhaps a full stop. -/
def IsStop (t : Text) : Prop := ∃ blanks, IsBlanks blanks ∧ (t = blanks ∨ t = blanks ++ [.char '.'])

/-- The forms that a line without blanks around it can have, with what a line of each form says. -/
inductive HasForm : Text → Line → Prop
  /-- Nothing. -/
  | empty : HasForm [] .silent
  /-- A comment. -/
  | comment {c : CodePoint} {rest : Text} (hsign : c = .char '#' ∨ c = .char '%') :
      HasForm (c :: rest) .silent
  /-- The predicate `arg` with a name in parentheses. -/
  | arg {blanks body stop m : Text} (hblanks : IsBlanks blanks) (hbody : IsPadded m body)
      (hstop : IsStop stop) :
    HasForm (argWord ++ blanks ++ [.char '('] ++ body ++ [.char ')'] ++ stop) (.arg m)
  /-- The predicate `att` with two names in parentheses, and a comma between them. -/
  | att {blanks first second stop origin target : Text} (hblanks : IsBlanks blanks)
      (hfirst : IsPadded origin first) (hsecond : IsPadded target second) (hstop : IsStop stop) :
    HasForm (attWord ++ blanks ++ [.char '('] ++ first ++ [.char ','] ++ second ++
      [.char ')'] ++ stop) (.att origin target)

/-! ## Reading the forms -/

/-- What may follow the parenthesis is a full stop with blanks around it, or blanks. -/
theorem isEnding_iff : isEnding t ↔ IsStop t := by
  have hdrop : ∀ {blanks stop : Text}, IsBlanks blanks → (stop = [] ∨ stop = [.char '.']) →
      (blanks ++ stop).dropWhile (·.is Text.isBlank) = stop := by
    intro blanks stop hblanks hstop
    exact dropWhile_append_eq hblanks (by rcases hstop with rfl | rfl <;> simp; decide)
  simp only [isEnding, Bool.or_eq_true, beq_iff_eq]
  constructor
  · intro h
    refine ⟨t.takeWhile (·.is Text.isBlank), fun c hc => List.mem_takeWhile_imp hc, ?_⟩
    have hsplit := List.takeWhile_append_dropWhile (p := (·.is Text.isBlank)) (l := t)
    rcases h with h | h
    · left
      rw [h, List.append_nil] at hsplit
      exact hsplit.symm
    · right
      rw [h] at hsplit
      exact hsplit.symm
  · rintro ⟨blanks, hblanks, rfl | rfl⟩
    · left
      simpa using hdrop hblanks (.inl rfl)
    · right
      exact hdrop hblanks (.inr rfl)

/-- No blank is a comma or a parenthesis. -/
theorem IsBlanks.not_mem (h : IsBlanks t) : .char ',' ∉ t ∧ .char '(' ∉ t ∧ .char ')' ∉ t := by
  refine ⟨fun hc => ?_, fun hc => ?_, fun hc => ?_⟩ <;> exact absurd (h _ hc) (by decide)

/-- A text trims to a name exactly if it is the name with blanks around it. -/
theorem isPadded_iff : IsPadded m t ↔ Text.trim t = m ∧ IsBareName m := by
  constructor
  · rintro ⟨hm, before, after, hbefore, hafter, rfl⟩
    exact ⟨(Text.trimBy_append hbefore hafter).trans hm.trim_eq, hm⟩
  · rintro ⟨rfl, hm⟩
    obtain ⟨before, after, hbefore, hafter, ht⟩ := Text.exists_trimBy_eq (·.is Text.isBlank) t
    exact ⟨hm, before, after, hbefore, hafter, ht⟩

/-- A name with blanks around it has neither a comma nor a parenthesis either. -/
theorem IsPadded.not_mem (h : IsPadded m t) : .char ',' ∉ t ∧ .char '(' ∉ t ∧ .char ')' ∉ t := by
  obtain ⟨hm, before, after, hbefore, hafter, rfl⟩ := h
  have h₁ := hbefore.not_mem
  have h₂ := hm.not_mem
  have h₃ := hafter.not_mem
  simp only [List.mem_append, not_or]
  exact ⟨⟨⟨h₁.1, h₂.1⟩, h₃.1⟩, ⟨⟨h₁.2.1, h₂.2.1⟩, h₃.2.1⟩, ⟨h₁.2.2, h₂.2.2⟩, h₃.2.2⟩

/-- What a text without commas and parentheses trims to is a name, if it is not empty. -/
theorem isPadded_of_trim_ne_nil (hcomma : .char ',' ∉ t) (hbody : ∀ c ∈ t, isBodyPoint c)
    (hm : Text.trim t ≠ []) : IsPadded (Text.trim t) t := by
  have hmem : ∀ c ∈ Text.trim t, c ∈ t := fun c hc => mem_of_mem_trimBy hc
  refine isPadded_iff.2 ⟨rfl, hm, Text.trimBy_trimBy _ _, fun hc => hcomma (hmem _ hc), fun hc =>
    ?_, fun hc => ?_⟩ <;> exact absurd (hbody _ (hmem _ hc)) (by decide)

/-- A body is a text without parentheses. -/
theorem forall_isBodyPoint_iff : (∀ c ∈ t, isBodyPoint c) ↔ .char '(' ∉ t ∧ .char ')' ∉ t := by
  simp only [isBodyPoint, Bool.and_eq_true, bne_iff_ne, ne_eq]
  constructor
  · exact fun h => ⟨fun hc => (h _ hc).1 rfl, fun hc => (h _ hc).2 rfl⟩
  · rintro ⟨hopen, hclose⟩ c hc
    exact ⟨fun h => hopen (h ▸ hc), fun h => hclose (h ▸ hc)⟩

/-- A body has one name exactly if it has no comma. -/
theorem namesOf_eq_singleton_iff : namesOf t = [m] ↔ .char ',' ∉ t ∧ Text.trim t = m := by
  constructor
  · intro h
    obtain ⟨piece, hpieces, rfl⟩ := List.map_eq_singleton_iff.1 h
    have ht : t = piece := by
      rw [← Text.intercalate_pieces (.char ',') t, hpieces]
      simp [List.intercalate]
    subst ht
    exact ⟨Text.sep_not_mem_of_mem_pieces (by rw [hpieces]; exact List.mem_singleton_self _), rfl⟩
  · rintro ⟨hcomma, rfl⟩
    rw [namesOf, Text.pieces_of_not_mem hcomma, List.map_singleton]

/-- A body has two names exactly if it has one comma. -/
theorem namesOf_eq_pair_iff : namesOf t = [origin, target] ↔
    ∃ first second, .char ',' ∉ first ∧ .char ',' ∉ second ∧ t = first ++ .char ',' :: second ∧
      Text.trim first = origin ∧ Text.trim second = target := by
  constructor
  · intro h
    obtain ⟨first, rest, hpieces, rfl, hrest⟩ := List.map_eq_cons_iff.1 h
    obtain ⟨second, rfl, rfl⟩ := List.map_eq_singleton_iff.1 hrest
    have hnot : ∀ piece ∈ [first, second], .char ',' ∉ piece := fun piece hpiece =>
      Text.sep_not_mem_of_mem_pieces (by rw [hpieces]; exact hpiece)
    refine ⟨first, second, hnot _ (by simp), hnot _ (by simp), ?_, rfl, rfl⟩
    rw [← Text.intercalate_pieces (.char ',') t, hpieces]
    simp [List.intercalate]
  · rintro ⟨first, second, hfirst, hsecond, rfl, rfl, rfl⟩
    rw [namesOf, Text.pieces_append_cons hfirst, Text.pieces_of_not_mem hsecond]
    rfl

/-! ## What a line says -/

/-- A line is silent if it is empty or a comment. -/
theorem ofTrimmed_eq_silent_iff : Line.ofTrimmed t = .silent ↔ HasForm t .silent := by
  constructor
  · intro h
    cases t with
    | nil => exact .empty
    | cons c rest =>
      by_cases hsign : c = .char '#' ∨ c = .char '%'
      · exact .comment hsign
      · -- A statement always says something, be it that it cannot be read.
        simp only [Line.ofTrimmed, if_neg hsign] at h
        split at h
        · unfold Line.ofStatement at h
          repeat' split at h
          all_goals cases h
        · cases h
  · intro h
    cases h with
    | empty => rfl
    | comment hsign => simp only [Line.ofTrimmed, if_pos hsign]

/-- A line declares an argument exactly if it has the form for that. -/
theorem ofTrimmed_eq_arg_iff_hasForm : Line.ofTrimmed t = .arg m ↔ HasForm t (.arg m) := by
  rw [ofTrimmed_eq_arg_iff]
  constructor
  · rintro ⟨body, hs, hnames, hm⟩
    obtain ⟨-, hbody, blanks, stop, hblanks, hstop, rfl⟩ := statement?_eq_some_iff.1 hs
    obtain ⟨hcomma, rfl⟩ := namesOf_eq_singleton_iff.1 hnames
    simpa using HasForm.arg hblanks (isPadded_of_trim_ne_nil hcomma hbody hm) (isEnding_iff.1 hstop)
  · intro h
    cases h with
    | @arg blanks body stop _ hblanks hbody hstop =>
      have hnot := hbody.not_mem
      refine ⟨body, statement?_eq_some_iff.2
        ⟨isIdentifier_argWord, forall_isBodyPoint_iff.2 hnot.2, blanks, stop,
        hblanks, isEnding_iff.2 hstop, by simp⟩, ?_, hbody.1.ne_nil⟩
      exact namesOf_eq_singleton_iff.2 ⟨hnot.1, (isPadded_iff.1 hbody).1⟩

/-- A line declares an attack exactly if it has the form for that. -/
theorem ofTrimmed_eq_att_iff_hasForm :
    Line.ofTrimmed t = .att origin target ↔ HasForm t (.att origin target) := by
  rw [ofTrimmed_eq_att_iff]
  constructor
  · rintro ⟨body, hs, hnames, ho, ht⟩
    obtain ⟨-, hbody, blanks, stop, hblanks, hstop, rfl⟩ := statement?_eq_some_iff.1 hs
    obtain ⟨first, second, hfirst, hsecond, rfl, rfl, rfl⟩ := namesOf_eq_pair_iff.1 hnames
    have hleft : ∀ c ∈ first, isBodyPoint c := fun c hc => hbody c (by simp [hc])
    have hright : ∀ c ∈ second, isBodyPoint c := fun c hc => hbody c (by simp [hc])
    simpa using HasForm.att hblanks (isPadded_of_trim_ne_nil hfirst hleft ho)
      (isPadded_of_trim_ne_nil hsecond hright ht) (isEnding_iff.1 hstop)
  · intro h
    cases h with
    | @att blanks first second stop _ _ hblanks hfirst hsecond hstop =>
      have hbody := forall_mem_attBody (forall_isBodyPoint_iff.2 hfirst.not_mem.2)
        (forall_isBodyPoint_iff.2 hsecond.not_mem.2) (by decide)
      refine ⟨first ++ .char ',' :: second,
        statement?_eq_some_iff.2 ⟨isIdentifier_attWord, hbody, blanks, stop,
        hblanks, isEnding_iff.2 hstop, by simp⟩, ?_, hfirst.1.ne_nil, hsecond.1.ne_nil⟩
      exact namesOf_eq_pair_iff.2 ⟨first, second, hfirst.not_mem.1, hsecond.not_mem.1, rfl,
        (isPadded_iff.1 hfirst).1, (isPadded_iff.1 hsecond).1⟩

/-- **The form of a line.** A line has a form exactly if it can be read, and then it is read by that
form. -/
theorem hasForm_iff : HasForm t line ↔ Line.ofTrimmed t = line ∧ line.reason? = none := by
  cases line with
  | silent => simp [← ofTrimmed_eq_silent_iff, Line.reason?]
  | arg m => simp [← ofTrimmed_eq_arg_iff_hasForm, Line.reason?]
  | att origin target => simp [← ofTrimmed_eq_att_iff_hasForm, Line.reason?]
  | bad reason =>
    simp only [Line.reason?, reduceCtorEq, and_false, iff_false]
    intro h
    cases h

/-! ## Texts -/

/-- The lines of a text without the blanks around them. -/
def trimmedLines (text : Text) : List Text := (Text.lines text).map Text.trim

/-- Whether some line of a text declares an argument. -/
def Declares (text m : Text) : Prop := ∃ t ∈ trimmedLines text, HasForm t (.arg m)

/-- Whether every line of a text has a form, and attacks are between arguments that some lines
declare. -/
def IsGrammatical (text : Text) : Prop :=
  ∀ t ∈ trimmedLines text, ∃ line, HasForm t line ∧
    ∀ origin target, line = .att origin target → Declares text origin ∧ Declares text target

/-- Whether the lines of a text have forms by which they say something, line by line. -/
def Says (text : Text) (lines : List Line) : Prop := List.Forall₂ HasForm (trimmedLines text) lines

/-- Only attacks have a pair of names. -/
theorem Line.pair?_eq_some_iff {line : Line} {pair : Text × Text} :
    line.pair? = some pair ↔ line = .att pair.1 pair.2 := by
  cases line <;> simp [Line.pair?, Prod.ext_iff]

/-- What the lines say is what each says without the blanks around it. -/
theorem said_numberedLines_eq (text : Text) :
    said (numberedLines text) = (trimmedLines text).map Line.ofTrimmed := by
  rw [said_numberedLines, trimmedLines, List.map_map]
  rfl

/-- What the lines of a text say is what they are read as, if all of them can be read. -/
theorem says_iff {text : Text} {lines : List Line} :
    Says text lines ↔ said (numberedLines text) = lines ∧ ∀ line ∈ lines, line.reason? = none := by
  rw [said_numberedLines_eq, Says]
  generalize trimmedLines text = ts
  constructor
  · intro h
    induction h with
    | nil => simp
    | cons hform _ ih =>
      obtain ⟨hread, hreason⟩ := hasForm_iff.1 hform
      exact ⟨by rw [List.map_cons, hread, ih.1], List.forall_mem_cons.2 ⟨hreason, ih.2⟩⟩
  · rintro ⟨rfl, h⟩
    rw [List.forall₂_map_right_iff, List.forall₂_same]
    exact fun t ht => hasForm_iff.2 ⟨rfl, h _ (List.mem_map_of_mem ht)⟩

/-- The names that a text declares are those that are read. -/
theorem declares_iff {text : Text} : Declares text m ↔ m ∈ declared (numberedLines text) := by
  simp only [Declares, declared, Framework.mem_firstSeen, List.mem_filterMap,
    Line.name?_eq_some_iff, said_numberedLines_eq, List.mem_map, hasForm_iff, Line.reason?,
    and_true]
  constructor
  · rintro ⟨t, ht, hread⟩
    exact ⟨_, ⟨t, ht, rfl⟩, hread⟩
  · rintro ⟨line, ⟨t, ht, rfl⟩, hread⟩
    exact ⟨t, ht, hread⟩

/-- No line is skipped exactly if the text is in the grammar. -/
theorem isGrammatical_iff {text : Text} :
    IsGrammatical text ↔ (Report.of (numberedLines text)).skipped = [] := by
  rw [skipped_eq_nil_iff, said_numberedLines_eq, List.forall_mem_map]
  simp only [List.mem_filterMap, List.mem_map, exists_exists_and_eq_and, IsGrammatical,
    declares_iff, hasForm_iff]
  constructor
  · intro h
    refine ⟨fun t ht => ?_, ?_⟩
    · obtain ⟨line, ⟨rfl, hreason⟩, -⟩ := h t ht
      exact hreason
    · rintro pair ⟨t, ht, hpair⟩
      obtain ⟨line, ⟨rfl, -⟩, hdeclared⟩ := h t ht
      exact hdeclared pair.1 pair.2 (Line.pair?_eq_some_iff.1 hpair)
  · rintro ⟨hreason, hdeclared⟩ t ht
    refine ⟨_, ⟨rfl, hreason t ht⟩, fun origin target hatt => ?_⟩
    exact hdeclared (origin, target) ⟨t, ht, Line.pair?_eq_some_iff.2 hatt⟩

/-- Where nothing is skipped all attacks are resolved. -/
theorem resolved_of_skipped_eq_nil {ls : List (Text × Nat)} (h : (Report.of ls).skipped = []) :
    resolved ls = (said ls).filterMap Line.pair? := by
  rw [resolved_eq, List.filter_eq_self]
  intro pair hpair
  simpa using (skipped_eq_nil_iff.1 h).2 pair hpair

/-- **Strict reading.** A strict reading succeeds exactly on the texts of the grammar. The arguments
that it gives have the names that are declared, in the order in which they first are, and the
attacks are those of the lines, in their order, each between the places of its names. -/
theorem read_strict_exact (text : Text) :
    ((∃ r, read true text = .ok r) ↔ IsGrammatical text) ∧
      ∀ r, read true text = .ok r ↔ IsGrammatical text ∧ ∃ lines names, Says text lines ∧
        IsFirstOrder names (lines.filterMap Line.name?) ∧
        r = ⟨⟨names.length, (lines.filterMap Line.pair?).map fun pair =>
          ⟨(names.idxOf pair.1 : Nat), (names.idxOf pair.2 : Nat)⟩, some names⟩, []⟩ := by
  have hread : ∀ r, read true text = .ok r ↔
      IsGrammatical text ∧ Report.of (numberedLines text) = r := by
    intro r
    rw [read_eq, settle_eq_ok_iff, isGrammatical_iff]
    simp
  refine ⟨?_, fun r => ?_⟩
  · simp [hread]
  · rw [hread]
    refine and_congr_right fun hg => ?_
    have hskipped := isGrammatical_iff.1 hg
    have hof : Report.of (numberedLines text) = ⟨⟨(declared (numberedLines text)).length,
        ((said (numberedLines text)).filterMap Line.pair?).map
          (Framework.between (declared (numberedLines text))),
        some (declared (numberedLines text))⟩, []⟩ := by
      rw [← resolved_of_skipped_eq_nil hskipped, ← hskipped]
      rfl
    rw [hof]
    constructor
    · rintro rfl
      exact ⟨said (numberedLines text), declared (numberedLines text),
        says_iff.2 ⟨rfl, (skipped_eq_nil_iff.1 hskipped).1⟩, isFirstOrder_firstSeen _, rfl⟩
    · rintro ⟨lines, names, hsays, hnames, rfl⟩
      obtain ⟨rfl, -⟩ := says_iff.1 hsays
      rw [hnames.eq_firstSeen]
      rfl

end Apx

end Dialectic
