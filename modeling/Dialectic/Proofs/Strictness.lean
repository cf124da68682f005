import Dialectic.Proofs.Writing
import Mathlib.Data.List.Pairwise

/-!
# Strict and lenient reading

Lenient reading always gives a report. The lines that it skips are first those that say nothing that
can be read (`rejected`) and then the attacks of undeclared arguments (`unresolved`), each in the
order of the lines. Strict reading fails at the first of them, and gives the same report if there
are none. What was skipped has no part in the framework: once the skipped lines are blank, strict
reading gives it too (`read_true_of_blanks`).
-/

namespace Dialectic.Apx

variable {text text' : Text} {ls : List (Text × Nat)} {s : Skipped} {names : List Text} {i : Nat}

/-! ## Lines by number -/

/-- The line of a number, counted from one, is numbered with it. -/
theorem mem_numberedLines_iff {t : Text} {k : Nat} :
    (t, k) ∈ numberedLines text ↔
      ∃ i, k = i + 1 ∧ (Text.lines text)[i]?.map Text.trim = some t := by
  rw [numberedLines, List.mk_mem_zipIdx_iff_le_and_getElem?_sub]
  constructor
  · rintro ⟨hk, ht⟩
    refine ⟨k - 1, by omega, ?_⟩
    rwa [List.getElem?_map] at ht
  · rintro ⟨i, rfl, ht⟩
    refine ⟨by omega, ?_⟩
    rwa [Nat.add_sub_cancel, List.getElem?_map]

/-- A number is that of one line only. -/
theorem eq_of_mem_numberedLines {t t' : Text} {k : Nat} (h : (t, k) ∈ numberedLines text)
    (h' : (t', k) ∈ numberedLines text) : t = t' := by
  obtain ⟨i, rfl, hi⟩ := mem_numberedLines_iff.1 h
  obtain ⟨j, hj, ht⟩ := mem_numberedLines_iff.1 h'
  obtain rfl : i = j := by omega
  exact Option.some.inj (hi.symm.trans ht)

/-- The lines come in the order of their numbers. -/
theorem pairwise_numberedLines (text : Text) :
    (numberedLines text).Pairwise fun l l' => l.2 < l'.2 := by
  have h : ((numberedLines text).map Prod.snd).Pairwise (· < ·) := by
    rw [numberedLines, List.zipIdx_map_snd]
    exact List.pairwise_lt_range'
  exact List.pairwise_map.1 h

/-- What the lines of a text say, one after the other. -/
theorem said_numberedLines (text : Text) :
    said (numberedLines text) = (Text.lines text).map fun line =>
      Line.ofTrimmed (Text.trim line) := by
  rw [numberedLines, said_zipIdx, List.map_map]
  rfl

/-! ## The skipped lines -/

/-- The lines that say nothing that can be read. -/
def rejected (ls : List (Text × Nat)) : List Skipped := ls.filterMap malformed?

/-- The attacks of arguments that no line declares. -/
def unresolved (ls : List (Text × Nat)) : List Skipped :=
  (ls.filterMap pending?).filterMap (Pending.undeclared? (declared ls))

/-- The skipped lines are the rejected ones, then the unresolved ones. -/
theorem skipped_eq (ls : List (Text × Nat)) :
    (Report.of ls).skipped = rejected ls ++ unresolved ls := rfl

theorem malformed?_eq_some_iff {l : Text × Nat} :
    malformed? l = some s ↔ l = (s.text, s.number) ∧ Line.ofTrimmed s.text = .bad s.reason := by
  obtain ⟨t, k⟩ := l
  obtain ⟨number, text, reason⟩ := s
  simp only [malformed?, Option.map_eq_some_iff, Skipped.mk.injEq, Prod.mk.injEq]
  constructor
  · rintro ⟨why, hwhy, rfl, rfl, rfl⟩
    refine ⟨⟨rfl, rfl⟩, ?_⟩
    cases hline : Line.ofTrimmed t <;> simp_all [Line.reason?]
  · rintro ⟨⟨rfl, rfl⟩, hbad⟩
    exact ⟨reason, by rw [hbad]; rfl, rfl, rfl, rfl⟩

/-- A line is rejected exactly if it says nothing that can be read. -/
theorem mem_rejected :
    s ∈ rejected ls ↔ (s.text, s.number) ∈ ls ∧ Line.ofTrimmed s.text = .bad s.reason := by
  simp only [rejected, List.mem_filterMap, malformed?_eq_some_iff]
  constructor
  · rintro ⟨_, hl, rfl, hbad⟩
    exact ⟨hl, hbad⟩
  · rintro ⟨hl, hbad⟩
    exact ⟨_, hl, rfl, hbad⟩

/-- The names of an attack that are not among the given ones. -/
def missingOf (names : List Text) (origin target : Text) : List Text :=
  [origin, target].filter fun n => n ∉ names

theorem missingOf_eq_nil_iff {origin target : Text} :
    missingOf names origin target = [] ↔ origin ∈ names ∧ target ∈ names := by
  simp [missingOf]

theorem pending?_eq_some_iff {l : Text × Nat} {p : Pending} :
    pending? l = some p ↔ l = (p.text, p.number) ∧
      Line.ofTrimmed p.text = .att p.origin p.target := by
  obtain ⟨t, k⟩ := l
  obtain ⟨number, text, origin, target⟩ := p
  simp only [pending?, Option.map_eq_some_iff, Pending.mk.injEq, Prod.mk.injEq]
  constructor
  · rintro ⟨pair, hpair, rfl, rfl, rfl, rfl⟩
    refine ⟨⟨rfl, rfl⟩, ?_⟩
    cases hline : Line.ofTrimmed t <;> simp_all [Line.pair?]
    rw [← hpair]
    exact ⟨rfl, rfl⟩
  · rintro ⟨⟨rfl, rfl⟩, hatt⟩
    exact ⟨(origin, target), by rw [hatt]; rfl, rfl, rfl, rfl, rfl⟩

theorem undeclared?_eq_some_iff {p : Pending} :
    p.undeclared? names = some s ↔ missingOf names p.origin p.target ≠ [] ∧
      s = ⟨p.number, p.text, .undeclared (missingOf names p.origin p.target)⟩ := by
  rw [Pending.undeclared?, show p.missing names = missingOf names p.origin p.target from rfl]
  cases missingOf names p.origin p.target with
  | nil => simp
  | cons m missing => simp [eq_comm]

/-- A line is unresolved exactly if it is an attack of arguments of which some are not declared. -/
theorem mem_unresolved : s ∈ unresolved ls ↔ (s.text, s.number) ∈ ls ∧ ∃ origin target,
    Line.ofTrimmed s.text = .att origin target ∧ missingOf (declared ls) origin target ≠ [] ∧
      s.reason = .undeclared (missingOf (declared ls) origin target) := by
  simp only [unresolved, List.mem_filterMap, pending?_eq_some_iff, undeclared?_eq_some_iff]
  constructor
  · rintro ⟨p, ⟨_, hl, rfl, hatt⟩, hmissing, rfl⟩
    exact ⟨hl, p.origin, p.target, hatt, hmissing, rfl⟩
  · rintro ⟨hl, origin, target, hatt, hmissing, hreason⟩
    refine ⟨⟨s.number, s.text, origin, target⟩, ⟨_, hl, rfl, hatt⟩, hmissing, ?_⟩
    rw [← hreason]

/-! ## Their order -/

/-- The rejected lines come in their order. -/
theorem pairwise_rejected (h : ls.Pairwise fun l l' => l.2 < l'.2) :
    (rejected ls).Pairwise fun s s' => s.number < s'.number := by
  refine h.filterMap _ fun l l' hl s hs s' hs' => ?_
  obtain ⟨rfl, -⟩ := malformed?_eq_some_iff.1 hs
  obtain ⟨rfl, -⟩ := malformed?_eq_some_iff.1 hs'
  exact hl

/-- So do the unresolved ones. -/
theorem pairwise_unresolved (h : ls.Pairwise fun l l' => l.2 < l'.2) :
    (unresolved ls).Pairwise fun s s' => s.number < s'.number := by
  have hpending : (ls.filterMap pending?).Pairwise fun p p' => p.number < p'.number := by
    refine h.filterMap _ fun l l' hl p hp p' hp' => ?_
    obtain ⟨rfl, -⟩ := pending?_eq_some_iff.1 hp
    obtain ⟨rfl, -⟩ := pending?_eq_some_iff.1 hp'
    exact hl
  refine hpending.filterMap _ fun p p' hp s hs s' hs' => ?_
  obtain ⟨-, rfl⟩ := undeclared?_eq_some_iff.1 hs
  obtain ⟨-, rfl⟩ := undeclared?_eq_some_iff.1 hs'
  exact hp

/-- No line is skipped twice. -/
theorem nodup_numbers (text : Text) :
    ((rejected (numberedLines text) ++
      unresolved (numberedLines text)).map Skipped.number).Nodup := by
  have hlt := pairwise_numberedLines text
  rw [List.Nodup, List.pairwise_map, List.pairwise_append]
  refine ⟨(pairwise_rejected hlt).imp Nat.ne_of_lt, (pairwise_unresolved hlt).imp Nat.ne_of_lt, ?_⟩
  intro s hs s' hs' heq
  -- One line cannot both be unreadable and declare an attack.
  obtain ⟨hl, hbad⟩ := mem_rejected.1 hs
  obtain ⟨hl', origin, target, hatt, -⟩ := mem_unresolved.1 hs'
  rw [heq] at hl
  rw [eq_of_mem_numberedLines hl hl', hatt] at hbad
  cases hbad

/-! ## Blank lines in place of skipped ones -/

/-- What a line adds to a framework with the given names: a line that is skipped adds nothing. -/
def Line.used (names : List Text) : Line → Line
  | .bad _ => .silent
  | .att origin target => if origin ∈ names ∧ target ∈ names then .att origin target else .silent
  | line => line

/-- An attack is used as it is or not at all. -/
theorem Line.used_att_cases (names : List Text) (origin target : Text) :
    (Line.att origin target).used names = .att origin target ∧ origin ∈ names ∧ target ∈ names ∨
      (Line.att origin target).used names = .silent ∧ ¬ (origin ∈ names ∧ target ∈ names) := by
  by_cases h : origin ∈ names ∧ target ∈ names
  · exact .inl ⟨if_pos h, h⟩
  · exact .inr ⟨if_neg h, h⟩

theorem Line.name?_used (names : List Text) (line : Line) :
    (line.used names).name? = line.name? := by
  cases line with
  | att origin target =>
    rcases Line.used_att_cases names origin target with ⟨h, -⟩ | ⟨h, -⟩
    · rw [h]
    · rw [h]
      rfl
  | _ => rfl

theorem Line.reason?_used (names : List Text) (line : Line) : (line.used names).reason? = none := by
  cases line with
  | att origin target =>
    rcases Line.used_att_cases names origin target with ⟨h, -⟩ | ⟨h, -⟩
    · rw [h]
      rfl
    · rw [h]
      rfl
  | _ => rfl

theorem Line.pair?_used (names : List Text) (line : Line) :
    (line.used names).pair? = line.pair?.filter fun pair => pair.1 ∈ names ∧ pair.2 ∈ names := by
  cases line with
  | att origin target =>
    rcases Line.used_att_cases names origin target with ⟨h, hnames⟩ | ⟨h, hnames⟩
    · simp [h, Line.pair?, Option.filter_some, hnames]
    · simp [h, Line.pair?, Option.filter_some, hnames]
  | _ => rfl

/-- Lines of which those are left out that are skipped come to the same framework, and no line of
them is skipped. -/
theorem report_of_used {ls' : List (Text × Nat)}
    (h : said ls' = (said ls).map (Line.used (declared ls))) :
    Report.of ls' = ⟨(Report.of ls).framework, []⟩ := by
  have hdeclared : declared ls' = declared ls := by
    rw [declared, declared, h, List.filterMap_map]
    exact congrArg _ (List.filterMap_congr fun line _ => Line.name?_used _ line)
  have hpairs : (said ls').filterMap Line.pair? =
      ((said ls).filterMap Line.pair?).filter fun pair =>
        pair.1 ∈ declared ls ∧ pair.2 ∈ declared ls := by
    rw [h, List.filterMap_map, List.filter_filterMap]
    exact List.filterMap_congr fun line _ => Line.pair?_used _ line
  have hresolved : resolved ls' = resolved ls := by
    rw [resolved_eq, resolved_eq, hpairs, hdeclared, List.filter_filter]
    simp
  have hskipped : (Report.of ls').skipped = [] := by
    refine skipped_eq_nil_iff.2 ⟨fun line hline => ?_, fun pair hpair => ?_⟩
    · rw [h] at hline
      obtain ⟨line, -, rfl⟩ := List.mem_map.1 hline
      exact Line.reason?_used _ line
    · rw [hpairs, List.mem_filter, decide_eq_true_eq] at hpair
      rw [hdeclared]
      exact hpair.2
  rw [← hskipped]
  simp only [Report.of, hdeclared, hresolved]

/-- A text that has blank lines in place of some of the lines of another and is the same line by
line else. -/
structure Blanks (skipped : List Skipped) (text text' : Text) : Prop where
  /-- In place of a skipped line there is a line of blanks only. -/
  blank : ∀ s ∈ skipped, ∃ line, (Text.lines text')[s.number - 1]? = some line ∧ Text.trim line = []
  /-- The other lines are the same, and there are not more of them. -/
  same : ∀ i, (∀ s ∈ skipped, s.number ≠ i + 1) → (Text.lines text')[i]? = (Text.lines text)[i]?

/-- A line of which something is skipped is not used, and a line of which nothing is skipped is. -/
theorem exists_skipped_iff {line : Text} (h : (Text.lines text)[i]? = some line) :
    (∃ s ∈ (Report.of (numberedLines text)).skipped, s.number = i + 1) ↔
      (Line.ofTrimmed (Text.trim line)).used (declared (numberedLines text)) ≠
        Line.ofTrimmed (Text.trim line) := by
  have hline : (Text.trim line, i + 1) ∈ numberedLines text :=
    mem_numberedLines_iff.2 ⟨i, rfl, by rw [h]; rfl⟩
  simp only [skipped_eq, List.mem_append, mem_rejected, mem_unresolved]
  constructor
  · rintro ⟨s, ⟨hs, hbad⟩ | ⟨hs, origin, target, hatt, hmissing, -⟩, hnumber⟩
    · rw [hnumber] at hs
      rw [← eq_of_mem_numberedLines hs hline, hbad]
      simp [Line.used]
    · rw [hnumber] at hs
      rw [← eq_of_mem_numberedLines hs hline, hatt, Line.used,
        if_neg (missingOf_eq_nil_iff.not.1 hmissing)]
      simp
  · intro hused
    cases hsaid : Line.ofTrimmed (Text.trim line) with
    | silent => simp [hsaid, Line.used] at hused
    | arg name => simp [hsaid, Line.used] at hused
    | bad reason => exact ⟨⟨i + 1, Text.trim line, reason⟩, .inl ⟨hline, hsaid⟩, rfl⟩
    | att origin target =>
      have hmissing : missingOf (declared (numberedLines text)) origin target ≠ [] := by
        rw [Ne, missingOf_eq_nil_iff]
        intro hdeclared
        simp [hsaid, Line.used, hdeclared] at hused
      exact ⟨⟨i + 1, Text.trim line, .undeclared _⟩,
        .inr ⟨hline, origin, target, hsaid, hmissing, rfl⟩, rfl⟩

/-- A skipped line is a line of the text. -/
theorem exists_line_of_mem_skipped (hs : s ∈ (Report.of (numberedLines text)).skipped) :
    ∃ i line, s.number = i + 1 ∧ (Text.lines text)[i]? = some line := by
  have hline : (s.text, s.number) ∈ numberedLines text := by
    rw [skipped_eq, List.mem_append, mem_rejected, mem_unresolved] at hs
    rcases hs with hs | hs
    · exact hs.1
    · exact hs.1
  obtain ⟨i, hi, hmap⟩ := mem_numberedLines_iff.1 hline
  obtain ⟨line, hline, -⟩ := Option.map_eq_some_iff.1 hmap
  exact ⟨i, line, hi, hline⟩

/-- Once the skipped lines are blank, the lines say what is used of them. -/
theorem said_of_blanks (h : Blanks (Report.of (numberedLines text)).skipped text text') :
    said (numberedLines text') = (said (numberedLines text)).map
      (Line.used (declared (numberedLines text))) := by
  rw [said_numberedLines, said_numberedLines, List.map_map]
  -- Line by line: a skipped line is blank now and says nothing, and any other is the same and is
  -- used as it is.
  refine List.ext_getElem? fun i => ?_
  rw [List.getElem?_map, List.getElem?_map]
  by_cases hskipped : ∃ s ∈ (Report.of (numberedLines text)).skipped, s.number = i + 1
  · obtain ⟨s, hs, hnumber⟩ := hskipped
    obtain ⟨line', hline', htrim⟩ := h.blank s hs
    obtain ⟨j, line, hj, hline⟩ := exists_line_of_mem_skipped hs
    obtain rfl : i = j := by omega
    rw [hnumber, Nat.add_sub_cancel] at hline'
    have hused := (exists_skipped_iff hline).1 ⟨s, hs, hnumber⟩
    rw [hline', hline, Option.map_some, Option.map_some, htrim, Function.comp_apply]
    cases hsaid : Line.ofTrimmed (Text.trim line) with
    | silent => rfl
    | arg name => simp [hsaid, Line.used] at hused
    | bad reason => rfl
    | att origin target =>
      by_cases hdeclared : origin ∈ declared (numberedLines text) ∧
        target ∈ declared (numberedLines text)
      · simp [hsaid, Line.used, hdeclared] at hused
      · rw [Line.used, if_neg hdeclared]
        rfl
  · rw [h.same i fun s hs hnumber => hskipped ⟨s, hs, hnumber⟩]
    cases hline : (Text.lines text)[i]? with
    | none => rfl
    | some line =>
      have hused := (exists_skipped_iff hline).not.1 hskipped
      rw [Option.map_some, Option.map_some, Function.comp_apply, Classical.not_not.1 hused]

/-- **Blank lines in place of skipped ones.** Strict reading then gives the framework of lenient
reading. -/
theorem read_true_of_blanks (h : Blanks (Report.of (numberedLines text)).skipped text text') :
    read true text' = .ok ⟨(Report.of (numberedLines text)).framework, []⟩ := by
  rw [read_eq, report_of_used (said_of_blanks h), settle_nil]

/-- The lines of a text with nothing in place of the skipped ones. -/
def blankLines (skipped : List Skipped) (text : Text) : List Text :=
  (Text.lines text).mapIdx fun i line => if ∃ s ∈ skipped, s.number = i + 1 then [] else line

/-- A line is emptied exactly if it is skipped. -/
theorem getElem?_blankLines (skipped : List Skipped) (text : Text) (i : Nat) :
    (blankLines skipped text)[i]? =
      (Text.lines text)[i]?.map fun line => if ∃ s ∈ skipped, s.number = i + 1 then [] else line :=
  List.getElem?_mapIdx

/-- There is always a text with blank lines in place of the skipped ones. -/
theorem exists_blanks (text : Text) :
    ∃ text', Blanks (Report.of (numberedLines text)).skipped text text' := by
  obtain ⟨text', htext'⟩ : ∃ text', Text.lines text' =
      blankLines (Report.of (numberedLines text)).skipped text := by
    cases hlines : blankLines (Report.of (numberedLines text)).skipped text with
    | nil => exact ⟨[], rfl⟩
    | cons line lines =>
      -- What stood on a line has no line break, so the lines with line feeds between them are lines
      -- again.
      rw [← hlines]
      refine ⟨_, Text.lines_intercalate (by simp [hlines]) fun l hl c hc => ?_⟩
      obtain ⟨i, hi⟩ := List.mem_iff_getElem?.1 hl
      rw [getElem?_blankLines] at hi
      obtain ⟨l', hl', rfl⟩ := Option.map_eq_some_iff.1 hi
      split at hc
      · simp at hc
      · exact Text.is_isBreak_eq_false_of_mem_lines (List.mem_of_getElem? hl') c hc
  refine ⟨text', fun s hs => ?_, fun i hi => ?_⟩
  · obtain ⟨i, line, hnumber, hline⟩ := exists_line_of_mem_skipped hs
    refine ⟨[], ?_, rfl⟩
    rw [htext', getElem?_blankLines, hnumber, Nat.add_sub_cancel, hline, Option.map_some,
      if_pos ⟨s, hs, hnumber⟩]
  · have hnone : ¬ ∃ s ∈ (Report.of (numberedLines text)).skipped, s.number = i + 1 :=
      fun ⟨s, hs, hnumber⟩ => hi s hs hnumber
    simp only [htext', getElem?_blankLines, if_neg hnone, Option.map_id']

/-! ## The two readings of one text -/

/-- **Strict and lenient reading.** Lenient reading gives a report of every text. Strict reading
gives the same report if no line is skipped, and otherwise fails at the first skipped line; it never
fails else. Whatever blank lines stand in place of the skipped ones, strict reading then gives the
framework of lenient reading. No line is skipped twice, and first come the lines that say nothing
that can be read and then the attacks of undeclared arguments, each in their order. -/
theorem read_strict_lenient (text : Text) :
    ∃ r, read false text = .ok r ∧
      read true text = (match r.skipped with
        | [] => .ok r
        | s :: _ => .error (.line s)) ∧
      ((∃ e, read true text = .error e) ↔ r.skipped ≠ []) ∧
      (∃ text', Blanks r.skipped text text') ∧
      (∀ text', Blanks r.skipped text text' → read true text' = .ok ⟨r.framework, []⟩) ∧
      (r.skipped.map Skipped.number).Nodup ∧
      ∃ bad lost, r.skipped = bad ++ lost ∧
        bad.Pairwise (fun s s' => s.number < s'.number) ∧
        lost.Pairwise (fun s s' => s.number < s'.number) ∧
        (∀ s, s ∈ bad ↔ (s.text, s.number) ∈ numberedLines text ∧
          Line.ofTrimmed s.text = .bad s.reason) ∧
        ∀ s, s ∈ lost ↔ (s.text, s.number) ∈ numberedLines text ∧ ∃ origin target,
          Line.ofTrimmed s.text = .att origin target ∧
            missingOf r.framework.displayNames origin target ≠ [] ∧
            s.reason = .undeclared (missingOf r.framework.displayNames origin target) := by
  have hlt := pairwise_numberedLines text
  have hstrict : read true text = (match (Report.of (numberedLines text)).skipped with
      | [] => .ok (Report.of (numberedLines text))
      | s :: _ => .error (.line s)) := by
    rw [read_eq]
    generalize Report.of (numberedLines text) = r
    obtain ⟨f, skipped⟩ := r
    cases skipped with
    | nil => rfl
    | cons s rest => rfl
  refine ⟨_, read_false_eq text, hstrict, ?_, exists_blanks text, fun text' => read_true_of_blanks,
    nodup_numbers text, _, _, skipped_eq _, pairwise_rejected hlt, pairwise_unresolved hlt,
    fun s => mem_rejected, fun s => mem_unresolved⟩
  rw [hstrict]
  cases (Report.of (numberedLines text)).skipped with
  | nil => simp
  | cons s skipped => simp

/-- Of three lines, one says nothing that can be read, and one declares an attack on an argument
that is not declared. -/
theorem read_strict_lenient_two_skipped :
    read true "arg(a).\nfoo\natt(a,b).\n" = .error (.line ⟨2, "foo", .notStatement⟩) ∧
      Blanks [⟨2, "foo", .notStatement⟩, ⟨3, "att(a,b).", .undeclared ["b"]⟩]
        "arg(a).\nfoo\natt(a,b).\n" "arg(a).\n\n \n" ∧
      read true "arg(a).\n\n \n" = .ok ⟨⟨1, [], some ["a"]⟩, []⟩ := by
  obtain ⟨r, hr, hstrict, -, -, hblanks, -⟩ := read_strict_lenient "arg(a).\nfoo\natt(a,b).\n"
  have hlenient : read false "arg(a).\nfoo\natt(a,b).\n" =
      .ok ⟨⟨1, [], some ["a"]⟩, [⟨2, "foo", .notStatement⟩, ⟨3, "att(a,b).", .undeclared ["b"]⟩]⟩ :=
        rfl
  obtain rfl := Except.ok.inj (hr.symm.trans hlenient)
  have hblank : Blanks [⟨2, "foo", .notStatement⟩, ⟨3, "att(a,b).", .undeclared ["b"]⟩]
      "arg(a).\nfoo\natt(a,b).\n" "arg(a).\n\n \n" := by
    refine ⟨?_, fun i hi => ?_⟩
    · simp only [List.mem_cons, List.not_mem_nil, or_false]
      rintro s (rfl | rfl)
      · exact ⟨[], rfl, rfl⟩
      · exact ⟨" ", rfl, rfl⟩
    · match i with
      | 0 => rfl
      | 1 => exact absurd rfl (hi _ List.mem_cons_self)
      | 2 => exact absurd rfl (hi _ (List.mem_cons_of_mem _ List.mem_cons_self))
      | _ + 3 => rfl
  exact ⟨hstrict, hblank, hblanks _ hblank⟩

end Dialectic.Apx
