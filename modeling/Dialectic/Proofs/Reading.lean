import Dialectic.Apx.Reader
import Dialectic.Proofs.Building
import Dialectic.Proofs.Statements
import Mathlib.Data.List.Induction

/-!
# What a text is read as

A reading goes through the lines and then through the attacks, and either ends at a line that cannot
be used or goes on without it. What it comes to is a function of the lines (`Report.of`): lenient
reading gives that, and strict reading does too if nothing was skipped (`read_eq`). The framework is
sound, and all its names are names (`isSound_of_read`, `isName_of_read`).
-/

namespace Dialectic.Apx

open Framework (firstSeen between)

variable {α β : Type} {strict : Bool} {dropped : List Skipped} {ls : List (Text × Nat)}
  {names : List Text}

/-! ## Strict and lenient -/

/-- What a reading gives that comes to `x` after it met lines that cannot be used. -/
def settle (strict : Bool) (dropped : List Skipped) (x : α) : Except ReadError α :=
  match strict, dropped with
  | true, s :: _ => .error (.line s)
  | _, _ => .ok x

@[simp] theorem settle_nil (x : α) : settle strict [] x = .ok x := by
  cases strict <;> rfl

@[simp] theorem settle_false (x : α) : settle false dropped x = .ok x := by
  cases dropped <;> rfl

/-- A reading that goes on after it was settled meets first what it met before. -/
theorem settle_bind {x : α} {y : β} {rest : List Skipped} {next : α → Except ReadError β}
    (h : next x = settle strict rest y) :
    (settle strict dropped x >>= next) = settle strict (dropped ++ rest) y := by
  cases strict with
  | false => simpa [bind, Except.bind] using h
  | true =>
    cases dropped with
    | nil => simpa [bind, Except.bind] using h
    | cons s dropped => rfl

theorem settle_bind_ok {x : α} {y : β} {next : α → Except ReadError β} (h : next x = .ok y) :
    (settle strict dropped x >>= next) = settle strict dropped y := by
  rw [settle_bind (h.trans (settle_nil y).symm), List.append_nil]

/-- Nothing may be dropped where the reading is strict. -/
theorem settle_eq_ok_iff {x y : α} :
    settle strict dropped x = .ok y ↔ (strict = true → dropped = []) ∧ x = y := by
  cases strict <;> cases dropped <;> simp [settle]

/-- What is refused is refused for something that is dropped. -/
theorem exists_of_settle_eq_error {x : α} {e : ReadError} (h : settle strict dropped x = .error e) :
    ∃ s ∈ dropped, e = .line s := by
  unfold settle at h
  split at h
  · rename_i s rest
    exact ⟨s, List.mem_cons_self, (Except.error.inj h).symm⟩
  · cases h

theorem reject_eq (skipped : List Skipped) (s : Skipped) :
    reject strict skipped s = settle strict [s] (skipped ++ [s]) := by
  cases strict <;> rfl

/-! ## What a line says -/

/-- The name that a line declares. -/
def Line.name? : Line → Option Text
  | .arg name => some name
  | _ => none

/-- The names between which a line declares an attack. -/
def Line.pair? : Line → Option (Text × Text)
  | .att origin target => some (origin, target)
  | _ => none

/-- Why a line says nothing that can be read. -/
def Line.reason? : Line → Option Reason
  | .bad reason => some reason
  | _ => none

theorem Line.name?_eq_some_iff {line : Line} {m : Text} : line.name? = some m ↔ line = .arg m := by
  cases line <;> simp [Line.name?]

/-! ## Lines -/

/-- The attack that a numbered line declares. -/
def pending? (l : Text × Nat) : Option Pending :=
  (Line.ofTrimmed l.1).pair?.map fun pair => ⟨l.2, l.1, pair.1, pair.2⟩

/-- What is wrong with a numbered line by itself. -/
def malformed? (l : Text × Nat) : Option Skipped :=
  (Line.ofTrimmed l.1).reason?.map fun reason => ⟨l.2, l.1, reason⟩

/-- What numbered lines say. -/
def said (ls : List (Text × Nat)) : List Line := ls.map fun l => Line.ofTrimmed l.1

/-- The names that lines declare, each once, in the order in which they are first declared. -/
def declared (ls : List (Text × Nat)) : List Text := firstSeen ((said ls).filterMap Line.name?)

/-- What lines come to before their attacks are resolved. -/
def Draft.of (ls : List (Text × Nat)) : Draft :=
  ⟨declared ls, ls.filterMap pending?, ls.filterMap malformed?⟩

theorem filterMap_cons_eq (g : α → Option β) (x : α) (xs : List α) :
    (x :: xs).filterMap g = (g x).toList ++ xs.filterMap g := by
  cases h : g x <;> simp [h]

theorem filterMap_concat (g : α → Option β) (xs : List α) (x : α) :
    (xs ++ [x]).filterMap g = xs.filterMap g ++ (g x).toList := by
  rw [List.filterMap_append, filterMap_cons_eq, List.filterMap_nil, List.append_nil]

/-- One line more is read into what the lines before it come to. -/
theorem read_of (ls : List (Text × Nat)) (l : Text × Nat) :
    (Draft.of ls).read strict l = settle strict (malformed? l).toList (Draft.of (ls ++ [l])) := by
  unfold Draft.read Draft.of declared said
  rw [List.map_append, List.map_singleton, filterMap_concat, filterMap_concat, filterMap_concat,
    pending?, malformed?]
  cases hl : Line.ofTrimmed l.1 with
  | silent => simp [Line.name?, Line.pair?, Line.reason?]
  | arg name =>
    simp only [Line.name?, Line.pair?, Line.reason?, Option.map_none, Option.toList_none,
      Option.toList_some, settle_nil, List.append_nil, Framework.firstSeen_concat,
      Framework.mem_firstSeen]
    split <;> rfl
  | att origin target => simp [Line.name?, Line.pair?, Line.reason?]
  | bad reason =>
    simp only [Line.name?, Line.pair?, Line.reason?, Option.map_none, Option.toList_none,
      Option.map_some, Option.toList_some, List.append_nil, reject_eq]
    cases strict <;> rfl

/-- **Reading lines.** -/
theorem foldlM_read (ls : List (Text × Nat)) :
    ls.foldlM (Draft.read strict) Draft.empty =
      settle strict (ls.filterMap malformed?) (Draft.of ls) := by
  -- A name that comes again is known from the lines before it, so the induction is from the end.
  induction ls using List.reverseRecOn with
  | nil => simp [Draft.of, Draft.empty, declared, said, firstSeen, pure, Except.pure]
  | append_singleton ls l ih =>
    rw [List.foldlM_append, ih, filterMap_concat]
    refine settle_bind ?_
    rw [List.foldlM_cons, read_of]
    simp

/-! ## Attacks -/

/-- What is wrong with an attack if these are the declared names. -/
def Pending.undeclared? (names : List Text) (p : Pending) : Option Skipped :=
  match p.missing names with
  | [] => none
  | missing => some ⟨p.number, p.text, .undeclared missing⟩

/-- The names of an attack if they are among the declared ones. -/
def Pending.resolved? (names : List Text) (p : Pending) : Option (Text × Text) :=
  if p.origin ∈ names ∧ p.target ∈ names then some (p.origin, p.target) else none

theorem Pending.missing_eq_nil_iff {p : Pending} :
    p.missing names = [] ↔ p.origin ∈ names ∧ p.target ∈ names := by
  simp [Pending.missing]

/-- An attack goes to the resolved ones, or it is dropped because a name in it is not declared. -/
theorem add_eq (r : Resolved) (p : Pending) :
    r.add strict names p = settle strict (p.undeclared? names).toList
      ⟨r.attacks ++ (p.resolved? names).toList, r.skipped ++ (p.undeclared? names).toList⟩ := by
  unfold Resolved.add Pending.undeclared? Pending.resolved?
  cases hm : p.missing names with
  | nil =>
    rw [if_pos (Pending.missing_eq_nil_iff.1 hm)]
    simp
  | cons m missing =>
    rw [if_neg fun h => by simp [Pending.missing_eq_nil_iff.2 h] at hm]
    simp only [reject_eq]
    cases strict <;> simp [settle, bind, Except.bind, pure, Except.pure]

/-- **Resolving attacks.** -/
theorem foldlM_add (ps : List Pending) (r : Resolved) :
    ps.foldlM (Resolved.add strict names) r =
      settle strict (ps.filterMap (Pending.undeclared? names))
      ⟨r.attacks ++ ps.filterMap (Pending.resolved? names),
        r.skipped ++ ps.filterMap (Pending.undeclared? names)⟩ := by
  induction ps generalizing r with
  | nil => simp [pure, Except.pure]
  | cons p ps ih =>
    rw [List.foldlM_cons, add_eq, filterMap_cons_eq, filterMap_cons_eq]
    refine settle_bind ?_
    rw [ih, List.append_assoc, List.append_assoc]

/-! ## Texts -/

/-- The names of the attacks between declared names. -/
def resolved (ls : List (Text × Nat)) : List (Text × Text) :=
  (ls.filterMap pending?).filterMap (Pending.resolved? (declared ls))

/-- What lines come to. -/
def Report.of (ls : List (Text × Nat)) : Report :=
  ⟨⟨(declared ls).length, (resolved ls).map (between (declared ls)), some (declared ls)⟩,
   ls.filterMap malformed? ++ (ls.filterMap pending?).filterMap (Pending.undeclared? (declared ls))⟩

/-- No name is declared twice. -/
theorem nodup_declared (ls : List (Text × Nat)) : (declared ls).Nodup := Framework.nodup_firstSeen _

/-- Both names of a resolved attack are declared. -/
theorem mem_declared_of_mem_resolved {pair : Text × Text} (h : pair ∈ resolved ls) :
    pair.1 ∈ declared ls ∧ pair.2 ∈ declared ls := by
  obtain ⟨p, -, hp⟩ := List.mem_filterMap.1 h
  unfold Pending.resolved? at hp
  split at hp
  · rename_i hdeclared
    obtain rfl := Option.some.inj hp
    exact hdeclared
  · simp at hp

theorem ofNames_declared (ls : List (Text × Nat)) :
    Framework.ofNames (declared ls) (resolved ls) = .ok (Report.of ls).framework := by
  rw [Framework.ofNames_eq fun _ => mem_declared_of_mem_resolved,
    Framework.firstSeen_eq_self (nodup_declared ls)]
  rfl

/-- **Reading.** Lenient reading gives what the lines come to, and strict reading too, if no line
was skipped; else it ends at the first line that lenient reading reports. -/
theorem read_eq (text : Text) :
    read strict text = settle strict (Report.of (numberedLines text)).skipped
      (Report.of (numberedLines text)) := by
  rw [read, foldlM_read]
  -- What is wrong with lines by themselves is met before what is wrong with attacks.
  refine settle_bind ?_
  simp only [Draft.of, foldlM_add, List.nil_append]
  refine settle_bind_ok ?_
  change (Framework.ofNames (declared _) (resolved _)).mapError _ >>= _ = _
  rw [ofNames_declared]
  rfl

/-- Without being strict every text is read. -/
theorem read_false_eq (text : Text) : read false text = .ok (Report.of (numberedLines text)) := by
  rw [read_eq, settle_false]

/-- A reading that gives a report gives what the lines come to, whether it is strict or lenient. -/
theorem eq_of_read_eq_ok {text : Text} {r : Report} (h : read strict text = .ok r) :
    r = Report.of (numberedLines text) := by
  rw [read_eq, settle_eq_ok_iff] at h
  exact h.2.symm

/-- A reading only ends at a line that lenient reading would report. -/
theorem exists_of_read_eq_error {text : Text} {e : ReadError} (h : read strict text = .error e) :
    ∃ s ∈ (Report.of (numberedLines text)).skipped, e = .line s := by
  rw [read_eq] at h
  exact exists_of_settle_eq_error h

/-! ## The framework that is read -/

/-- What is read is a sound framework. -/
theorem isSound_of_read {text : Text} {r : Report} (h : read strict text = .ok r) :
    r.framework.IsSound := by
  rw [eq_of_read_eq_ok h]
  exact Framework.isSound_of_ofNames (ofNames_declared _)

/-- The lines that are read have no line endings in them. -/
theorem isBreak_of_mem_numberedLines {text : Text} {l : Text × Nat} (h : l ∈ numberedLines text) :
    ∀ c ∈ l.1, c.is Text.isBreak = false := by
  have hmem : l.1 ∈ (Text.lines text).map Text.trim := by
    obtain ⟨-, -, hl⟩ := List.mem_zipIdx h
    rw [hl]
    exact List.getElem_mem _
  obtain ⟨line, hline, hl⟩ := List.mem_map.1 hmem
  intro c hc
  rw [← hl] at hc
  exact Text.is_isBreak_eq_false_of_mem_lines hline c (mem_of_mem_trimBy hc)

theorem isName_of_mem_declared {text : Text} {m : Text} (h : m ∈ declared (numberedLines text)) :
    IsName m := by
  rw [declared, Framework.mem_firstSeen, List.mem_filterMap] at h
  obtain ⟨line, hline, hm⟩ := h
  obtain ⟨l, hl, rfl⟩ := List.mem_map.1 hline
  exact isName_of_ofTrimmed_eq_arg (isBreak_of_mem_numberedLines hl) (Line.name?_eq_some_iff.1 hm)

/-- Its names are names that can be written. -/
theorem isName_of_read {text : Text} {r : Report} (h : read strict text = .ok r) :
    ∀ m ∈ r.framework.displayNames, IsName m := by
  rw [eq_of_read_eq_ok h]
  intro m hm
  exact isName_of_mem_declared hm

/-! ## Lines that can all be used -/

/-- Resolved are the stated attacks between declared names. -/
theorem resolved_eq (ls : List (Text × Nat)) :
    resolved ls = ((said ls).filterMap Line.pair?).filter fun pair =>
      pair.1 ∈ declared ls ∧ pair.2 ∈ declared ls := by
  rw [resolved, said, List.filterMap_map, List.filterMap_filterMap, List.filter_filterMap]
  refine List.filterMap_congr fun l _ => ?_
  unfold pending?
  rw [Function.comp_apply]
  cases (Line.ofTrimmed l.1).pair? with
  | none => rfl
  | some pair =>
    simp only [Option.map_some, Option.bind_some, Pending.resolved?, Option.filter_some,
      decide_eq_true_eq]

theorem undeclared?_eq_none_iff {p : Pending} :
    p.undeclared? names = none ↔ p.origin ∈ names ∧ p.target ∈ names := by
  rw [← Pending.missing_eq_nil_iff, Pending.undeclared?]
  cases p.missing names <;> simp

/-- No line is skipped exactly if every line can be read and every attack is between declared
names. -/
theorem skipped_eq_nil_iff : (Report.of ls).skipped = [] ↔ (∀ line ∈ said ls, line.reason? = none) ∧
    ∀ pair ∈ (said ls).filterMap Line.pair?, pair.1 ∈ declared ls ∧ pair.2 ∈ declared ls := by
  rw [Report.of, List.append_eq_nil_iff, List.filterMap_eq_nil_iff, List.filterMap_eq_nil_iff]
  refine and_congr ?_ ?_
  · simp only [said, List.forall_mem_map, malformed?, Option.map_eq_none_iff]
  · simp only [undeclared?_eq_none_iff, List.mem_filterMap, said, List.mem_map, pending?]
    constructor
    · rintro h pair ⟨_, ⟨l, hl, rfl⟩, hpair⟩
      exact h _ ⟨l, hl, by rw [hpair]; rfl⟩
    · rintro h p ⟨l, hl, hp⟩
      obtain ⟨pair, hpair, rfl⟩ := Option.map_eq_some_iff.1 hp
      exact h pair ⟨_, ⟨l, hl, rfl⟩, hpair⟩

/-- Lines that declare names, all different, and then attacks between these come to the framework of
these names and attacks. -/
theorem report_of {pairs : List (Text × Text)} (hnames : names.Nodup)
    (hpairs : ∀ p ∈ pairs, p.1 ∈ names ∧ p.2 ∈ names)
    (h : said ls = names.map .arg ++ pairs.map fun p => .att p.1 p.2) :
    Report.of ls = ⟨⟨names.length, pairs.map (between names), some names⟩, []⟩ := by
  have hpair : (said ls).filterMap Line.pair? = pairs := by
    simp [h, List.filterMap_map, Line.pair?, Function.comp_def]
  have hdeclared : declared ls = names := by
    rw [declared, ← Framework.firstSeen_eq_self hnames]
    simp [h, List.filterMap_map, Line.name?, Function.comp_def]
  have hskipped : (Report.of ls).skipped = [] := by
    refine skipped_eq_nil_iff.2 ⟨?_, ?_⟩
    · intro line hline
      rw [h, List.mem_append, List.mem_map, List.mem_map] at hline
      rcases hline with ⟨m, -, rfl⟩ | ⟨p, -, rfl⟩ <;> rfl
    · rwa [hpair, hdeclared]
  have hresolved : resolved ls = pairs := by
    rw [resolved_eq, hpair, hdeclared]
    simpa using hpairs
  rw [← hresolved, ← hdeclared, ← hskipped]
  rfl

end Dialectic.Apx
