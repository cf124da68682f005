import Dialectic.Proofs.Outcome
import Dialectic.Service.View
import Mathlib.Data.List.GetD

/-!
# Labellings by name

A labelling of arguments with names is shown with, for every status, the names of the arguments of
that status in the order of the arguments (`ofLabelling_eq`). Every name is under exactly one status
(`perm_namesWith`).
-/

namespace Dialectic

/-! ## Values that are all there -/

/-- Two values are valid together exactly if each is. -/
theorem Validated.both_eq_ok_iff {α β : Type} {x : Validated α} {y : Validated β} {p : α × β} :
    Validated.both x y = .ok p ↔ x = .ok p.1 ∧ y = .ok p.2 := by
  cases x <;> cases y <;> simp [Validated.both, Prod.ext_iff]

theorem Validated.all_map_ok {α β : Type} (g : α → β) (xs : List α) :
    Validated.all (xs.map fun x => .ok (g x)) = .ok (xs.map g) := by
  induction xs with
  | nil => rfl
  | cons x xs ih =>
    rw [List.map_cons, Validated.all, ih]
    rfl

namespace LabellingView

variable {names : List Text} {l : Labelling} {s : Status}

/-! ## Names of a status -/

/-- The names of the arguments of a status, in the order of the arguments. -/
def namesWith (names : List Text) (l : Labelling) (s : Status) : List Text :=
  ((names.zip l).filter fun p => p.2 = s).map (·.1)

/-- The arguments of a status have the names with that status. -/
theorem map_indices (h : names.length = l.length) :
    (l.indices s).map (names.getD · []) = namesWith names l s := by
  -- Both sides filter the statuses, which are paired with names on the one and with numbers on the
  -- other.
  have hzip : names.zip l = l.zipIdx.map fun p => (names.getD p.2 [], p.1) := by
    refine List.ext_getElem (by simp [h]) fun i hi _ => ?_
    have hn : i < names.length := by
      rw [List.length_zip] at hi
      omega
    rw [List.getElem_zip, List.getElem_map, List.getElem_zipIdx, Nat.zero_add,
      List.getD_eq_getElem _ _ hn]
  rw [namesWith, hzip, List.filter_map, List.map_map, Labelling.indices, List.map_map]
  rfl

/-- Every name is that of an argument, and every argument has one status. -/
theorem perm_namesWith (h : names.length = l.length) :
    (namesWith names l .accepted ++
      (namesWith names l .rejected ++ namesWith names l .undecided)).Perm names := by
  have hparts : ∀ zs : List (Text × Status), ((zs.filter fun p => p.2 = .accepted) ++
      ((zs.filter fun p => p.2 = .rejected) ++ zs.filter fun p => p.2 = .undecided)).Perm zs := by
    intro zs
    induction zs with
    | nil => exact .nil
    | cons z zs ih =>
      obtain ⟨m, t⟩ := z
      cases t with
      | accepted => simpa using ih
      | rejected => simpa using List.perm_middle.trans (ih.cons (m, Status.rejected))
      | undecided =>
        have hlast := (List.perm_middle.append_left _).trans
          (List.perm_middle.trans (ih.cons (m, Status.undecided)))
        simpa using hlast
  have hnames := (hparts (names.zip l)).map Prod.fst
  rw [List.map_append, List.map_append, List.map_fst_zip (Nat.le_of_eq h)] at hnames
  exact hnames

/-! ## Views -/

/-- What a labelling is shown as. -/
def showing (names : List Text) (l : Labelling) : LabellingView :=
  ⟨l.map Status.name, namesWith names l .accepted, namesWith names l .rejected,
    namesWith names l .undecided⟩

/-- The label of an argument is its name. -/
theorem label_eq {i : Nat} (h : i < names.length) :
    Labelling.label (.arr (names.map .str)) i = .ok (.str (names.getD i [])) := by
  have hne : names ≠ [] := by
    rintro rfl
    simp at h
  have hi : i < (names.map Json.str).length := by simpa using h
  have htrue : (Json.arr (names.map .str)).isTrue := by simpa [Json.isTrue] using hne
  rw [Labelling.label, if_pos htrue]
  simp only [Index.get_natCast .list hi, List.getElem_map]
  rw [List.getD_eq_getElem _ _ h]
  rfl

/-- The names of arguments that are there. -/
theorem namesOf_eq (field : String) {arguments : List Nat} (h : ∀ i ∈ arguments, i < names.length) :
    namesOf (.arr (names.map .str)) field arguments =
      .ok (.ok (arguments.map (names.getD · []))) := by
  have hlabels := mapM_eq_ok fun i hi => label_eq (h i hi)
  have htexts : ∀ ts : List Text, Validated.all (ts.zipIdx.map fun p => .ok p.1) = .ok ts := by
    intro ts
    rw [Validated.all_map_ok, List.zipIdx_map_fst]
  have hstr : arguments.map (fun i => Json.str (names.getD i [])) =
      (arguments.map (names.getD · [])).map .str := by
    rw [List.map_map]
    rfl
  rw [namesOf, hlabels, ← htexts (arguments.map (names.getD · []))]
  simp only [hstr, bind, Except.bind, List.zipIdx_map, List.map_map]
  rfl

/-- **Labellings by name.** A labelling of arguments with names is shown. -/
theorem ofLabelling_eq (h : names.length = l.length) :
    ofLabelling l (.arr (names.map .str)) = .ok (showing names l) := by
  have hnames : ∀ (field : String) (s : Status),
      namesOf (.arr (names.map .str)) field (l.indices s) = .ok (.ok (namesWith names l s)) := by
    intro field s
    rw [namesOf_eq field fun i hi => h ▸ Labelling.lt_length_of_mem_indices hi, map_indices h]
  rw [ofLabelling, Labelling.accepted, hnames, Labelling.rejected, hnames,
    Labelling.undecided, hnames]
  rfl

end LabellingView

end Dialectic
