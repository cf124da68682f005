import Dialectic.Apx.Writer
import Dialectic.Proofs.Reading
import Mathlib.Data.List.GetD

/-!
# Writing and reading back

What is written for a sound framework is read as the same framework (`read_written`), and it can be
written exactly if all its names are names (`write_eq`). A name is one exactly if the line that is
written for it is read as its declaration (`exists_read_argLine_iff`). The names that were read are
such, so what was read can be written, and what is written then is a normal form of the text.
-/

namespace Dialectic

/-- The lines of a text that is made of lines. -/
theorem Text.lines_intercalate {ls : List Text} (hne : ls ≠ [])
    (h : ∀ l ∈ ls, ∀ c ∈ l, c.is isBreak = false) :
    lines (List.intercalate [.char '\n'] ls ++ [.char '\n']) = ls := by
  induction ls with
  | nil => exact absurd rfl hne
  | cons l ls ih =>
    have hl := h l List.mem_cons_self
    cases ls with
    | nil => rw [List.intercalate_singleton, lines_append_lineFeed hl, lines_nil]
    | cons l' ls =>
      rw [List.intercalate_cons_cons, List.append_assoc, List.append_assoc, List.singleton_append,
        lines_append_lineFeed hl, ih (by simp) fun k hk => h k (List.mem_cons_of_mem _ hk)]

namespace Apx

open Framework (between)

variable {f : Framework} {names : List Text} {attacks : List Attack} {a : Attack} {m : Text}

/-! ## Names by number -/

/-- The name of an argument in a list of names. -/
def nameIn (names : List Text) (i : Int) : Text := names.getD i.toNat []

/-- The name of an argument that is there is found. -/
theorem get_eq_nameIn {i : Int} (h : 0 ≤ i ∧ i < names.length) :
    Index.get .list names i = .ok (nameIn names i) := by
  obtain ⟨k, rfl⟩ := Int.eq_ofNat_of_zero_le h.1
  have hk : k < names.length := by omega
  rw [Index.get_natCast .list hk, nameIn, Int.toNat_natCast, List.getD_eq_getElem _ _ hk]

theorem nameIn_mem {i : Int} (h : 0 ≤ i ∧ i < names.length) : nameIn names i ∈ names := by
  rw [nameIn, List.getD_eq_getElem _ _ (by omega)]
  exact List.getElem_mem _

/-- The names of the ends of an attack. -/
def pairIn (names : List Text) (a : Attack) : Text × Text :=
  (nameIn names a.origin, nameIn names a.target)

theorem pairIn_mem (h : a.isWithin names.length) :
    (pairIn names a).1 ∈ names ∧ (pairIn names a).2 ∈ names := by
  obtain ⟨ho, ht⟩ := Attack.isWithin_iff.1 h
  exact ⟨nameIn_mem ho, nameIn_mem ht⟩

/-- Where names differ, an attack is found again by the names of its ends. -/
theorem between_pairIn (hnames : names.Nodup) (h : a.isWithin names.length) :
    between names (pairIn names a) = a := by
  have hindex : ∀ i : Int, 0 ≤ i ∧ i < names.length → (names.idxOf (nameIn names i) : Int) = i := by
    intro i hi
    rw [nameIn, List.getD_eq_getElem _ _ (by omega), hnames.idxOf_getElem]
    omega
  obtain ⟨ho, ht⟩ := Attack.isWithin_iff.1 h
  simp only [between, pairIn, hindex _ ho, hindex _ ht]

/-! ## Writing -/

/-- The line of an attack has the names of its two ends. -/
theorem attackLine_eq (h : a.isWithin names.length) :
    attackLine names a = .ok (attLine (nameIn names a.origin) (nameIn names a.target)) := by
  obtain ⟨ho, ht⟩ := Attack.isWithin_iff.1 h
  rw [attackLine, get_eq_nameIn ho, get_eq_nameIn ht]
  rfl

/-- The lines of names and attacks. -/
def linesOf (names : List Text) (attacks : List Attack) : List Text :=
  names.map argLine ++ attacks.map fun a => attLine (pairIn names a).1 (pairIn names a).2

/-- The text of names and attacks. -/
def written (names : List Text) (attacks : List Attack) : Text :=
  List.intercalate [.char '\n'] (linesOf names attacks) ++ [.char '\n']

/-- **Writing.** A sound framework is written with its names and attacks, unless a name cannot be
written. -/
theorem write_eq (h : f.IsSound) :
    write f = match f.displayNames.find? fun n => !isWritable n with
      | some m => .error (.badName m)
      | none => .ok (written f.displayNames f.attacks) := by
  have hwithin : ∀ a ∈ f.attacks, a.isWithin f.displayNames.length := by
    rw [h.length_displayNames]
    exact h.wellFormed.2
  rw [write]
  cases f.displayNames.find? fun n => !isWritable n with
  | some m => rfl
  | none =>
    simp only [mapM_eq_ok fun a ha => attackLine_eq (hwithin a ha)]
    rfl

/-- A sound framework with proper names is written. -/
theorem write_eq_ok (h : f.IsSound) (hnames : ∀ m ∈ f.displayNames, IsName m) :
    write f = .ok (written f.displayNames f.attacks) := by
  have hfind : f.displayNames.find? (fun n => !isWritable n) = none := by
    rw [List.find?_eq_none]
    intro m hm
    simp [isWritable_iff.2 (hnames m hm)]
  rw [write_eq h, hfind]

/-- Where something is written, it is the names and attacks, and all names are names. -/
theorem eq_written_of_write {text : Text} (h : f.IsSound) (hw : write f = .ok text) :
    text = written f.displayNames f.attacks ∧ ∀ m ∈ f.displayNames, IsName m := by
  rw [write_eq h] at hw
  split at hw
  · cases hw
  · rename_i hfind
    refine ⟨(Except.ok.inj hw).symm, fun m hm => isWritable_iff.1 ?_⟩
    simpa using List.find?_eq_none.1 hfind m hm

/-- Where nothing is written, it is because of a name that is none. -/
theorem exists_of_write_eq_error {e : WriteError} (h : f.IsSound) (hw : write f = .error e) :
    ∃ m ∈ f.displayNames, ¬ IsName m ∧ e = .badName m := by
  rw [write_eq h] at hw
  split at hw
  · rename_i m hfind
    refine ⟨m, List.mem_of_find?_eq_some hfind, fun hm => ?_, (Except.error.inj hw).symm⟩
    simpa [isWritable_iff.2 hm] using List.find?_some hfind
  · cases hw

/-! ## Reading back -/

/-- None of its lines has blanks at its ends or a break. -/
theorem isTrimmedLine_of_mem_linesOf (hnames : ∀ m ∈ names, IsName m)
    (hattacks : ∀ a ∈ attacks, a.isWithin names.length) :
    ∀ l ∈ linesOf names attacks, Text.IsTrimmedLine l := by
  intro l hl
  rcases List.mem_append.1 hl with hl | hl
  · obtain ⟨m, hm, rfl⟩ := List.mem_map.1 hl
    exact isTrimmedLine_argLine (hnames m hm)
  · obtain ⟨a, ha, rfl⟩ := List.mem_map.1 hl
    obtain ⟨ho, ht⟩ := pairIn_mem (hattacks a ha)
    exact isTrimmedLine_attLine (hnames _ ho) (hnames _ ht)

/-- Lines that are put together are found again, with their numbers. -/
theorem numberedLines_intercalate {ls : List Text} (hne : ls ≠ [])
    (h : ∀ l ∈ ls, Text.IsTrimmedLine l) :
    numberedLines (List.intercalate [.char '\n'] ls ++ [.char '\n']) = ls.zipIdx 1 := by
  have htrim : ls.map Text.trim = ls :=
    calc ls.map Text.trim = ls.map id := List.map_congr_left fun l hl => (h l hl).trim_eq
      _ = ls := List.map_id ls
  rw [numberedLines, Text.lines_intercalate hne fun l hl => (h l hl).isBreak, htrim]

theorem said_zipIdx (ls : List Text) (k : Nat) : said (ls.zipIdx k) = ls.map Line.ofTrimmed := by
  rw [said, show (fun l : Text × Nat => Line.ofTrimmed l.1) = Line.ofTrimmed ∘ Prod.fst
    from rfl, ← List.map_map, List.zipIdx_map_fst]

/-- Its lines say the names, then the attacks. -/
theorem map_ofTrimmed_linesOf (hnames : ∀ m ∈ names, IsName m)
    (hattacks : ∀ a ∈ attacks, a.isWithin names.length) :
    (linesOf names attacks).map Line.ofTrimmed =
      names.map .arg ++ (attacks.map (pairIn names)).map fun p => .att p.1 p.2 := by
  rw [linesOf, List.map_append, List.map_map, List.map_map, List.map_map]
  refine congrArg₂ _ (List.map_congr_left fun m hm => ?_) (List.map_congr_left fun a ha => ?_)
  · exact ofTrimmed_argLine (hnames m hm)
  · obtain ⟨ho, ht⟩ := pairIn_mem (hattacks a ha)
    exact ofTrimmed_attLine (hnames _ ho) (hnames _ ht)

/-- **Reading back.** Names that differ and attacks between them are read as they were written. -/
theorem read_written (hnodup : names.Nodup) (hnames : ∀ m ∈ names, IsName m)
    (hattacks : ∀ a ∈ attacks, a.isWithin names.length) :
    read true (written names attacks) = .ok ⟨⟨names.length, attacks, some names⟩, []⟩ := by
  cases hlines : linesOf names attacks with
  | nil =>
    -- Without lines there is still a line feed, and so a line that says nothing.
    obtain ⟨hn, ha⟩ : names = [] ∧ attacks = [] := by simpa [linesOf] using hlines
    subst hn ha
    rfl
  | cons l ls =>
    have hnumbered : numberedLines (written names attacks) = (linesOf names attacks).zipIdx 1 :=
      numberedLines_intercalate (by simp [hlines]) (isTrimmedLine_of_mem_linesOf hnames hattacks)
    have hpairs : ∀ p ∈ attacks.map (pairIn names), p.1 ∈ names ∧ p.2 ∈ names := by
      rw [List.forall_mem_map]
      exact fun a ha => pairIn_mem (hattacks a ha)
    have hbetween : (attacks.map (pairIn names)).map (between names) = attacks := by
      rw [List.map_map]
      calc attacks.map (between names ∘ pairIn names) = attacks.map id :=
            List.map_congr_left fun a ha => between_pairIn hnodup (hattacks a ha)
        _ = attacks := List.map_id attacks
    rw [read_eq, hnumbered,
      report_of hnodup hpairs ((said_zipIdx _ _).trans (map_ofTrimmed_linesOf hnames hattacks)),
      settle_nil, hbetween]

/-! ## What is a name -/

/-- A text is a name exactly if the line that is written for it alone is read as its declaration. -/
theorem exists_read_argLine_iff :
    (∃ r, read true (argLine m) = .ok r ∧ r.framework.names = some [m]) ↔ IsName m := by
  constructor
  · rintro ⟨r, hr, hnames⟩
    refine isName_of_read hr m ?_
    simp [Framework.displayNames, hnames]
  · intro hm
    have hline := isTrimmedLine_argLine hm
    have hnumbered : numberedLines (argLine m) = [argLine m].zipIdx 1 := by
      rw [numberedLines, Text.lines_of_forall_isBreak (by simp [argLine_eq, stated]) hline.isBreak,
        List.map_singleton, hline.trim_eq]
    have hreport : Report.of (numberedLines (argLine m)) = ⟨⟨1, [], some [m]⟩, []⟩ := by
      refine report_of (List.nodup_singleton m) (fun p hp => absurd hp List.not_mem_nil) ?_
      rw [hnumbered, said_zipIdx, List.map_singleton, ofTrimmed_argLine hm]
      rfl
    exact ⟨_, by rw [read_eq, hreport, settle_nil], rfl⟩

/-! ## Frameworks from anywhere -/

/-- The ways a framework comes about: it is built, without negative numbers if of attacks alone, or
it is read. -/
inductive IsBuilt : Framework → Prop
  | source {src : Framework.Source} {f : Framework} (h : src.build = .ok f)
    (h₀ : src.isUnnamed → ∀ a ∈ f.attacks, 0 ≤ a.origin ∧ 0 ≤ a.target) : IsBuilt f
  | text {strict : Bool} {text : Text} {r : Report} (h : read strict text = .ok r) :
      IsBuilt r.framework

/-- What is built is sound. -/
theorem IsBuilt.isSound (h : IsBuilt f) : f.IsSound := by
  cases h with
  | source h h₀ => exact Framework.Source.isSound h h₀
  | text h => exact isSound_of_read h

/-- What is written for a sound framework is read, strictly and with no line skipped, as an equal
framework with the names that it was written with. -/
theorem exists_read_of_write {text : Text} (h : f.IsSound) (hw : write f = .ok text) :
    ∃ r, read true text = .ok r ∧ r.skipped = [] ∧
      r.framework = ⟨f.size, f.attacks, some f.displayNames⟩ := by
  obtain ⟨rfl, hnames⟩ := eq_written_of_write h hw
  refine ⟨_, read_written h.nodup_displayNames hnames ?_, rfl, ?_⟩
  · rw [h.length_displayNames]
    exact h.wellFormed.2
  · rw [h.length_displayNames]

/-- **Writing and strict reading are inverse.** What is written for a framework is read as an equal
framework, and the names in it are those that it was written with. A framework is not written
exactly if one of these names is none: the line for it alone would not be read as its
declaration. -/
theorem write_read_inverse (h : IsBuilt f) :
    (∀ text, write f = .ok text → ∃ r, read true text = .ok r ∧ r.skipped = [] ∧
      r.framework.same f ∧ r.framework.names = some f.displayNames) ∧
    ((∃ name, write f = .error (.badName name)) ↔
      ∃ m ∈ f.displayNames, ¬ ∃ r, read true (argLine m) = .ok r ∧ r.framework.names = some [m]) ∧
    ∀ e, write f = .error e → ∃ name, e = .badName name := by
  refine ⟨fun text hw => ?_, ⟨?_, ?_⟩, fun e hw => ?_⟩
  · obtain ⟨r, hr, hskipped, hf⟩ := exists_read_of_write h.isSound hw
    exact ⟨r, hr, hskipped, by simp [hf, Framework.same_iff], by rw [hf]⟩
  · rintro ⟨name, hw⟩
    obtain ⟨m, hm, hname, -⟩ := exists_of_write_eq_error h.isSound hw
    exact ⟨m, hm, exists_read_argLine_iff.not.2 hname⟩
  · rintro ⟨m, hm, hname⟩
    cases hw : write f with
    | ok text =>
      obtain ⟨-, hnames⟩ := eq_written_of_write h.isSound hw
      exact absurd (exists_read_argLine_iff.2 (hnames m hm)) hname
    | error e =>
      obtain ⟨name, -, -, rfl⟩ := exists_of_write_eq_error h.isSound hw
      exact ⟨name, rfl⟩
  · obtain ⟨name, -, -, he⟩ := exists_of_write_eq_error h.isSound hw
    exact ⟨name, he⟩

/-- Two names with an attack are read back, and a name with a comma in it is not written. -/
theorem write_read_inverse_two_names :
    (∃ r, read true "arg(a).\narg(b).\natt(a,b).\n" = .ok r ∧ r.skipped = [] ∧
      r.framework.same ⟨2, [⟨0, 1⟩], some ["a", "b"]⟩ ∧
      r.framework.names = some (Framework.displayNames ⟨2, [⟨0, 1⟩], some ["a", "b"]⟩)) ∧
    ∃ m ∈ Framework.displayNames ⟨1, [], some ["a,b"]⟩,
      ¬ ∃ r, read true (argLine m) = .ok r ∧ r.framework.names = some [m] := by
  have hnames : (Framework.Source.names ["a", "b"] (.arr [.arr [.str "a", .str "b"]])).build =
      .ok ⟨2, [⟨0, 1⟩], some ["a", "b"]⟩ := rfl
  have htable : (Framework.Source.table [("a,b", 0)] (.arr [])).build =
      .ok ⟨1, [], some ["a,b"]⟩ := rfl
  exact ⟨(write_read_inverse (.source hnames nofun)).1 _ rfl,
    (write_read_inverse (.source htable nofun)).2.1.1 ⟨_, rfl⟩⟩

/-- **Normal form.** What a text is read as leniently can be written, what is written is read
strictly with no line skipped and gives the same names and the same attacks, and these are written
as the same text again. -/
theorem write_normal_form (text : Text) :
    ∃ r out r', read false text = .ok r ∧ write r.framework = .ok out ∧ read true out = .ok r' ∧
      r'.skipped = [] ∧
      r'.framework.names = r.framework.names ∧ r'.framework.attacks = r.framework.attacks ∧
      write r'.framework = .ok out := by
  have hread := read_false_eq text
  have hwrite := write_eq_ok (isSound_of_read hread) (isName_of_read hread)
  obtain ⟨r', hr', hskipped, hf⟩ := exists_read_of_write (isSound_of_read hread) hwrite
  exact ⟨_, _, r', hread, hwrite, hr', hskipped, by rw [hf]; rfl, by rw [hf],
    by rw [hf]; exact hwrite⟩

end Apx

end Dialectic
