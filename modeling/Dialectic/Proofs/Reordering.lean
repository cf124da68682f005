import Dialectic.Proofs.Renumbering
import Dialectic.Proofs.Strictness
import Mathlib.Data.Fintype.EquivFin

/-!
# Lines in another order

The same lines in another order declare the same arguments, which are numbered differently, and the
same attacks between them (`declared_perm`, `resolved_perm`), and the same lines are skipped for the
same reasons (`skipped_perm`). Read as maps from names to statuses, the labellings are the same
(`mem_byName_iff`). If the lines that declare arguments keep their order, and those that declare
attacks keep theirs, the framework is the same (`framework_eq`).
-/

namespace Dialectic.Apx

open Engine (ofSolvers)
open Framework (firstSeen between)
open Dialectic.Sat (Solver)
open Text (isBreak)

variable {β σ σ' : Type} {ls ls' : List Text} {names names' : List Text} {l : Labelling} {m : Text}

/-! ## Texts made of lines -/

/-- The text of lines with a line feed between them. -/
def joined (ls : List Text) : Text := List.intercalate [.char '\n'] ls

/-- The lines of a text that is made of lines, except that a last line with nothing on it is
none. -/
theorem lines_joined (h : ∀ l ∈ ls, ∀ c ∈ l, c.is isBreak = false) :
    ls = Text.lines (joined ls) ∨ ls = Text.lines (joined ls) ++ [[]] := by
  induction ls with
  | nil => exact .inl rfl
  | cons l ls ih =>
    have hl := h l List.mem_cons_self
    cases ls with
    | nil =>
      rw [joined, List.intercalate_singleton]
      by_cases hne : l = []
      · subst hne
        exact .inr rfl
      · rw [Text.lines_of_forall_isBreak hne hl]
        exact .inl rfl
    | cons l' ls =>
      have hjoined : Text.lines (joined (l :: l' :: ls)) = l :: Text.lines (joined (l' :: ls)) := by
        rw [joined, List.intercalate_cons_cons, List.append_assoc, List.singleton_append,
          Text.lines_append_lineFeed hl]
        rfl
      rw [hjoined, List.cons_append, List.cons.injEq, List.cons.injEq]
      exact (ih fun k hk => h k (List.mem_cons_of_mem _ hk)).imp (⟨rfl, ·⟩) (⟨rfl, ·⟩)

/-- What is gathered from the lines of such a text is gathered from the lines that it is made of. -/
theorem filterMap_lines_joined (h : ∀ l ∈ ls, ∀ c ∈ l, c.is isBreak = false) {g : Text → Option β}
    (hg : g [] = none) : (Text.lines (joined ls)).filterMap g = ls.filterMap g := by
  rcases lines_joined h with heq | heq
  · rw [← heq]
  · conv_rhs => rw [heq]
    simp [hg]

/-! ## What is gathered from lines -/

/-- What a line says, with blanks around it. -/
def lineOf (l : Text) : Line := Line.ofTrimmed (Text.trim l)

/-- Whether a line declares an argument. -/
def isArgLine (l : Text) : Bool := (lineOf l).name?.isSome

/-- Whether a line declares an attack. -/
def isAttLine (l : Text) : Bool := (lineOf l).pair?.isSome

/-- What is wrong with a line by itself. -/
def faultOf (l : Text) : Option (Text × Reason) :=
  (lineOf l).reason?.map fun reason => (Text.trim l, reason)

/-- What is wrong with a line if these names are declared. -/
def lossOf (names : List Text) (l : Text) : Option (Text × Reason) :=
  (lineOf l).pair?.bind fun pair =>
    match missingOf names pair.1 pair.2 with
    | [] => none
    | missing => some (Text.trim l, .undeclared missing)

/-- A skipped line without its number. -/
def why (s : Skipped) : Text × Reason := (s.text, s.reason)

/-- Of joined lines, the declared names are those of the lines, each at its first place. -/
theorem declared_joined (h : ∀ l ∈ ls, ∀ c ∈ l, c.is isBreak = false) :
    declared (numberedLines (joined ls)) = firstSeen (ls.filterMap fun l => (lineOf l).name?) := by
  rw [declared, said_numberedLines, List.filterMap_map]
  exact congrArg _ (filterMap_lines_joined h rfl)

/-- The resolved attacks are those of the lines between declared names. -/
theorem resolved_joined (h : ∀ l ∈ ls, ∀ c ∈ l, c.is isBreak = false) :
    resolved (numberedLines (joined ls)) =
      (ls.filterMap fun l => (lineOf l).pair?).filter fun pair =>
        pair.1 ∈ declared (numberedLines (joined ls)) ∧
          pair.2 ∈ declared (numberedLines (joined ls)) := by
  rw [resolved_eq]
  refine congrArg _ ?_
  rw [said_numberedLines, List.filterMap_map]
  exact filterMap_lines_joined h rfl

/-- What is gathered from the numbered lines, but for their numbers, is gathered from the lines. -/
theorem filterMap_numberedLines (text : Text) (g : Text → Option β) :
    (numberedLines text).filterMap (fun l => g l.1) = (Text.lines text).filterMap fun l =>
      g (Text.trim l) := by
  calc (numberedLines text).filterMap (fun l => g l.1)
      = ((numberedLines text).map Prod.fst).filterMap g := List.filterMap_map.symm
    _ = ((Text.lines text).map Text.trim).filterMap g := by rw [numberedLines, List.zipIdx_map_fst]
    _ = (Text.lines text).filterMap fun l => g (Text.trim l) := List.filterMap_map

/-- The reasons for rejected lines are their faults. -/
theorem map_why_rejected (text : Text) :
    (rejected (numberedLines text)).map why = (Text.lines text).filterMap faultOf := by
  rw [rejected, List.map_filterMap]
  refine Eq.trans (List.filterMap_congr fun l _ => ?_)
    (filterMap_numberedLines text fun t => (Line.ofTrimmed t).reason?.map fun reason => (t, reason))
  rw [malformed?, Option.map_map]
  rfl

/-- The reasons for unresolved lines are the names that they miss. -/
theorem map_why_unresolved (text : Text) :
    (unresolved (numberedLines text)).map why =
      (Text.lines text).filterMap (lossOf (declared (numberedLines text))) := by
  -- The declared names are the same for all lines.
  generalize hnames : declared (numberedLines text) = names
  rw [unresolved, hnames, List.map_filterMap, List.filterMap_filterMap]
  refine Eq.trans (List.filterMap_congr fun l _ => ?_)
    (filterMap_numberedLines text fun t => (Line.ofTrimmed t).pair?.bind fun pair =>
      match missingOf names pair.1 pair.2 with
      | [] => none
      | missing => some (t, Reason.undeclared missing))
  rw [pending?]
  cases (Line.ofTrimmed l.1).pair? with
  | none => rfl
  | some pair =>
    rw [Option.map_some, Option.bind_some, Option.bind_some, Pending.undeclared?]
    change (match missingOf names pair.1 pair.2 with
      | [] => none
      | missing => some _ : Option Skipped).map why = _
    cases missingOf names pair.1 pair.2 <;> rfl

/-- What is skipped of the lines of a text, without their numbers. -/
theorem map_why_skipped (h : ∀ l ∈ ls, ∀ c ∈ l, c.is isBreak = false) :
    (Report.of (numberedLines (joined ls))).skipped.map why =
      ls.filterMap faultOf ++ ls.filterMap (lossOf (declared (numberedLines (joined ls)))) := by
  rw [skipped_eq, List.map_append, map_why_rejected, map_why_unresolved,
    filterMap_lines_joined h rfl, filterMap_lines_joined h rfl]

/-! ## The same lines in another order -/

section Perm

variable (h : ∀ l ∈ ls, ∀ c ∈ l, c.is isBreak = false) (hp : ls'.Perm ls)

include hp in
theorem forall_mem_of_perm {q : Text → Prop} (h : ∀ l ∈ ls, q l) :
    ∀ l ∈ ls', q l := fun l hl => h l (hp.mem_iff.1 hl)

include h hp

/-- The order of the lines does not matter for which names are declared. -/
theorem mem_declared_iff_of_perm :
    m ∈ declared (numberedLines (joined ls')) ↔ m ∈ declared (numberedLines (joined ls)) := by
  rw [declared_joined h, declared_joined (forall_mem_of_perm hp h), Framework.mem_firstSeen,
    Framework.mem_firstSeen]
  exact (hp.filterMap _).mem_iff

/-- The same arguments are declared. -/
theorem declared_perm :
    (declared (numberedLines (joined ls'))).Perm (declared (numberedLines (joined ls))) :=
  (List.perm_ext_iff_of_nodup (nodup_declared _) (nodup_declared _)).2 fun _ =>
    mem_declared_iff_of_perm h hp

/-- The same attacks are between declared arguments. -/
theorem resolved_perm :
    (resolved (numberedLines (joined ls'))).Perm (resolved (numberedLines (joined ls))) := by
  rw [resolved_joined h, resolved_joined (forall_mem_of_perm hp h)]
  simp only [mem_declared_iff_of_perm h hp]
  exact (hp.filterMap _).filter _

/-- So it does not matter for which attacks are lost. -/
theorem lossOf_eq_of_perm :
    lossOf (declared (numberedLines (joined ls'))) =
      lossOf (declared (numberedLines (joined ls))) := by
  funext l
  simp only [lossOf, missingOf, mem_declared_iff_of_perm h hp]

/-- The same lines are skipped for the same reasons. -/
theorem skipped_perm : ((Report.of (numberedLines (joined ls'))).skipped.map why).Perm
    ((Report.of (numberedLines (joined ls))).skipped.map why) := by
  rw [map_why_skipped h, map_why_skipped (forall_mem_of_perm hp h), lossOf_eq_of_perm h hp]
  exact (hp.filterMap _).append (hp.filterMap _)

end Perm

/-! ## Arguments by name -/

theorem pairIn_between {pair : Text × Text} (h : pair.1 ∈ names ∧ pair.2 ∈ names) :
    pairIn names (between names pair) = pair := by
  have hname : ∀ m ∈ names, nameIn names (names.idxOf m : Nat) = m := by
    intro m hm
    rw [nameIn, Int.toNat_natCast, List.getD_eq_getElem _ _ (List.idxOf_lt_length_iff.2 hm),
      List.getElem_idxOf]
  rw [pairIn, between, hname _ h.1, hname _ h.2]

/-- The attacks of what is read, by the names of their ends. -/
theorem map_pairIn_attacks (ls : List (Text × Nat)) :
    (Report.of ls).framework.attacks.map (pairIn (declared ls)) = resolved ls := by
  rw [Report.of, List.map_map]
  calc (resolved ls).map (pairIn (declared ls) ∘ between (declared ls)) = (resolved ls).map id :=
        List.map_congr_left fun _ hpair => pairIn_between (mem_declared_of_mem_resolved hpair)
    _ = resolved ls := List.map_id _

/-- A labelling as a map from names to statuses. -/
def byName (names : List Text) (l : Labelling) : Text → Option Status := fun m => l[names.idxOf m]?

/-- Names in another order give the arguments new numbers. -/
theorem exists_perm_idxOf (hp : names'.Perm names) (hnodup : names.Nodup) :
    ∃ p : Equiv.Perm (Fin names.length),
      ∀ i : Fin names.length, (p i).val = names'.idxOf names[i] := by
  have hmem : ∀ i : Fin names.length, names[i] ∈ names' :=
    fun i => hp.mem_iff.2 (List.getElem_mem i.isLt)
  let place : Fin names.length → Fin names.length := fun i =>
    ⟨names'.idxOf names[i], Nat.lt_of_lt_of_eq (List.idxOf_lt_length_iff.2 (hmem i)) hp.length_eq⟩
  have hinj : Function.Injective place := by
    intro i j hij
    have hname : names[i] = names[j] := (List.idxOf_inj (hmem i)).1 (Fin.mk.inj hij)
    exact Fin.ext ((hnodup.getElem_inj_iff).1 hname)
  exact ⟨Equiv.ofBijective place (Finite.injective_iff_bijective.1 hinj), fun _ => rfl⟩

/-- Once the statuses are moved to the new numbers, every name has the status that it had. -/
theorem byName_moved {p : Equiv.Perm (Fin names.length)} (hp : names'.Perm names)
    (h : ∀ i : Fin names.length, (p i).val = names'.idxOf names[i]) (hl : l.length = names.length) :
    byName names' (l.moved p) = byName names l := by
  funext m
  rw [byName, byName]
  -- A name that is not declared has no place in either order.
  by_cases hm : m ∈ names
  · have hlt := List.idxOf_lt_length_iff.2 hm
    have hplace := h ⟨names.idxOf m, hlt⟩
    rw [Fin.getElem_fin, List.getElem_idxOf] at hplace
    rw [← hplace, Labelling.getElem?_moved p hl]
  · rw [List.idxOf_eq_length hm, List.idxOf_eq_length fun hm' =>
      hm (hp.mem_iff.1 hm'), hp.length_eq,
      List.getElem?_eq_none (by simp), List.getElem?_eq_none (by omega)]

/-- Attacks between the same names, with the names in another order, make a framework with
renumbered arguments. -/
theorem renumbers_between {pairs pairs' : List (Text × Text)} {p : Equiv.Perm (Fin names.length)}
    (hnames : names'.Perm names) (h : ∀ i : Fin names.length, (p i).val = names'.idxOf names[i])
    (hpairs : ∀ pair, pair ∈ pairs' ↔ pair ∈ pairs)
    (hmem : ∀ pair ∈ pairs, pair.1 ∈ names ∧ pair.2 ∈ names) :
    Framework.Renumbers p ⟨names.length, pairs.map (between names), some names⟩
      ⟨names'.length, pairs'.map (between names'), some names'⟩ := by
  have hplace : ∀ m (hm : m ∈ names),
      (p ⟨names.idxOf m, List.idxOf_lt_length_iff.2 hm⟩).val = names'.idxOf m := by
    intro m hm
    rw [h, Fin.getElem_fin, List.getElem_idxOf]
  refine ⟨rfl, by rw [hnames.length_eq], fun a => ?_⟩
  simp only [List.mem_map, hpairs, Framework.Attacks]
  constructor
  · rintro ⟨pair, hpair, rfl⟩
    obtain ⟨ho, ht⟩ := hmem pair hpair
    refine ⟨⟨_, List.idxOf_lt_length_iff.2 ho⟩, ⟨_, List.idxOf_lt_length_iff.2 ht⟩,
      ⟨pair, hpair, rfl⟩, ?_⟩
    rw [hplace _ ho, hplace _ ht, between]
  · rintro ⟨i, j, ⟨pair, hpair, heq⟩, rfl⟩
    obtain ⟨ho, ht⟩ := hmem pair hpair
    simp only [between, Attack.mk.injEq, Int.natCast_inj] at heq
    obtain rfl : ⟨_, List.idxOf_lt_length_iff.2 ho⟩ = i := Fin.ext heq.1
    obtain rfl : ⟨_, List.idxOf_lt_length_iff.2 ht⟩ = j := Fin.ext heq.2
    exact ⟨pair, hpair, by rw [hplace _ ho, hplace _ ht, between]⟩

/-! ## What is computed of lines in another order -/

section Perm

variable (h : ∀ l ∈ ls, ∀ c ∈ l, c.is isBreak = false) (hp : ls'.Perm ls)

include h hp

/-- The labellings of what is read are the same maps from names to statuses, whatever models the
solvers answer with. -/
theorem mem_byName_iff (S : Nat → Solver σ) (S' : Nat → Solver σ') (s : Semantics) :
    ∃ labellings labellings',
      (ofSolvers S).labellings (Report.of (numberedLines (joined ls))).framework s =
        .ok labellings ∧
      (ofSolvers S').labellings (Report.of (numberedLines (joined ls'))).framework s =
        .ok labellings' ∧
      ∀ map, map ∈ labellings'.map (byName (declared (numberedLines (joined ls')))) ↔
        map ∈ labellings.map (byName (declared (numberedLines (joined ls)))) := by
  have hnames := declared_perm h hp
  obtain ⟨p, hplace⟩ := exists_perm_idxOf hnames (nodup_declared _)
  have hsound := isSound_of_read (read_false_eq (joined ls))
  have hrenumbers := renumbers_between hnames hplace (fun _ => (resolved_perm h hp).mem_iff)
    fun _ => mem_declared_of_mem_resolved
  obtain ⟨labellings, hl, he⟩ := Engine.labellings_spec hsound.wellFormed S s
  obtain ⟨labellings', hl', he'⟩ := Engine.labellings_spec hrenumbers.wellFormed S' s
  refine ⟨labellings, labellings', hl, hl', fun map => ?_⟩
  simp only [List.mem_map, he.mem_iff, he'.mem_iff]
  constructor
  · rintro ⟨l', hadmits', rfl⟩
    obtain ⟨l, hadmits, rfl⟩ := (hrenumbers.admits_iff hsound.wellFormed).1 hadmits'
    exact ⟨l, hadmits, (byName_moved hnames hplace (hadmits.length_eq rfl)).symm⟩
  · rintro ⟨l, hadmits, rfl⟩
    exact ⟨_, (hrenumbers.admits_iff hsound.wellFormed).2 ⟨l, hadmits, rfl⟩,
      byName_moved hnames hplace (hadmits.length_eq rfl)⟩

end Perm

/-- What is gathered from some lines only is gathered from the list of these. -/
theorem filterMap_filter_isSome {α β : Type} (g : α → Option β) (xs : List α) :
    (xs.filter fun x => (g x).isSome).filterMap g = xs.filterMap g := by
  rw [List.filterMap_filter]
  refine List.filterMap_congr fun x _ => ?_
  cases hx : g x <;> simp

theorem filterMap_eq_of_filter_eq {α β : Type} {g : α → Option β} {xs ys : List α}
    (h : (xs.filter fun x => (g x).isSome) = ys.filter fun x => (g x).isSome) :
    xs.filterMap g = ys.filterMap g := by
  rw [← filterMap_filter_isSome g xs, h, filterMap_filter_isSome]

/-- If the lines that declare arguments come in the same order, and those that declare attacks do,
the framework is the same. -/
theorem framework_eq (h : ∀ l ∈ ls, ∀ c ∈ l, c.is isBreak = false)
    (h' : ∀ l ∈ ls', ∀ c ∈ l, c.is isBreak = false)
    (hargs : ls'.filter isArgLine = ls.filter isArgLine)
    (hatts : ls'.filter isAttLine = ls.filter isAttLine) :
    (Report.of (numberedLines (joined ls'))).framework =
      (Report.of (numberedLines (joined ls))).framework := by
  have hnames : declared (numberedLines (joined ls')) = declared (numberedLines (joined ls)) := by
    rw [declared_joined h, declared_joined h', filterMap_eq_of_filter_eq hargs]
  have hpairs : resolved (numberedLines (joined ls')) = resolved (numberedLines (joined ls)) := by
    rw [resolved_joined h, resolved_joined h', hnames, filterMap_eq_of_filter_eq hatts]
  simp only [Report.of, hnames, hpairs]

/-- **The order of lines.** Lines are read in another order. There are the same names, the same
attacks by name, and the same skipped lines with the same reasons, and under every semantics the
labellings are the same maps from names to statuses, whatever models the solvers answer with. If the
lines that declare arguments keep their order and those that declare attacks keep theirs, the
frameworks are the same with their names. -/
theorem read_reordered (h : ∀ l ∈ ls, ∀ c ∈ l, c.is isBreak = false) (hp : ls'.Perm ls)
    (S : Nat → Solver σ) (S' : Nat → Solver σ') :
    ∃ r r' names names', read false (joined ls) = .ok r ∧ read false (joined ls') = .ok r' ∧
      r.framework.names = some names ∧ r'.framework.names = some names' ∧ names'.Perm names ∧
      (r'.framework.attacks.map (pairIn names')).Perm (r.framework.attacks.map (pairIn names)) ∧
      (r'.skipped.map why).Perm (r.skipped.map why) ∧
      (∀ s, ∃ labellings labellings', (ofSolvers S).labellings r.framework s = .ok labellings ∧
        (ofSolvers S').labellings r'.framework s = .ok labellings' ∧
        ∀ map, map ∈ labellings'.map (byName names') ↔ map ∈ labellings.map (byName names)) ∧
      (ls'.filter isArgLine = ls.filter isArgLine → ls'.filter isAttLine = ls.filter isAttLine →
        r'.framework = r.framework) := by
  refine ⟨_, _, _, _, read_false_eq _, read_false_eq _, rfl, rfl, declared_perm h hp, ?_,
    skipped_perm h hp, mem_byName_iff h hp S S', framework_eq h (forall_mem_of_perm hp h)⟩
  rw [map_pairIn_attacks, map_pairIn_attacks]
  exact resolved_perm h hp

/-- An attack before its arguments, and after them in the other order, with a line that cannot be
read. -/
theorem read_reordered_four_lines :
    ∃ r r' names names', read false (joined ["att(a,b).", "arg(a).", "foo", "arg(b)."]) = .ok r ∧
      read false (joined ["arg(b).", "foo", "arg(a).", "att(a,b)."]) = .ok r' ∧
      r.framework.names = some names ∧ r'.framework.names = some names' ∧ names'.Perm names ∧
      (r'.framework.attacks.map (pairIn names')).Perm (r.framework.attacks.map (pairIn names)) ∧
      (r'.skipped.map why).Perm (r.skipped.map why) ∧
      (∀ s, ∃ labellings labellings',
        (ofSolvers fun _ => .learning).labellings r.framework s = .ok labellings ∧
        (ofSolvers fun _ => .learning).labellings r'.framework s = .ok labellings' ∧
        ∀ map, map ∈ labellings'.map (byName names') ↔ map ∈ labellings.map (byName names)) ∧
      ((["arg(b).", "foo", "arg(a).", "att(a,b)."] : List Text).filter isArgLine =
          (["att(a,b).", "arg(a).", "foo", "arg(b)."] : List Text).filter isArgLine →
        (["arg(b).", "foo", "arg(a).", "att(a,b)."] : List Text).filter isAttLine =
          (["att(a,b).", "arg(a).", "foo", "arg(b)."] : List Text).filter isAttLine →
        r'.framework = r.framework) :=
  read_reordered (by decide) (by decide) (fun _ => .learning) fun _ => .learning

end Dialectic.Apx
