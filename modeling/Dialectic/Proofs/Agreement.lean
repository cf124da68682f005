import Dialectic.Proofs.Injectivity
import Dialectic.Proofs.Pairs
import Mathlib.Data.List.Forall2

/-!
# Equality regardless of the order of fields

Two values agree if they are equal but for the order in which their objects have their fields; an
integer and a floating-point number never agree. Values whose canonical forms have the same text
agree when the pairs in them are joined (`agrees_of_write_canonical_eq`): their canonical forms are
then equal up to such pairs, and so their fields are, one by one (`agrees_of_canonical_eq`).
-/

namespace Dialectic.Json

/-- Whether two values are equal but for the order in which objects have their fields. -/
inductive Agrees : Json → Json → Prop
  /-- A value agrees with itself. -/
  | refl (v : Json) : Agrees v v
  /-- Lists agree item by item. -/
  | arr {items items' : List Json} (h : List.Forall₂ Agrees items items') :
      Agrees (.arr items) (.arr items')
  /-- Objects agree name by name. -/
  | obj {fields fields' : List (Text × Json)}
      (h : ∀ k, Option.Rel Agrees (Assoc.get? fields k) (Assoc.get? fields' k)) :
      Agrees (.obj fields) (.obj fields')

variable {v w : Json} {fields fields' : List (Text × Json)}

/-- Objects agree exactly if they have the same names, with values that agree. -/
theorem agrees_obj_iff : Agrees (.obj fields) (.obj fields') ↔
    ∀ k, Option.Rel Agrees (Assoc.get? fields k) (Assoc.get? fields' k) := by
  refine ⟨?_, .obj⟩
  rintro (_ | _ | h) k
  · cases Assoc.get? fields k with
    | none => exact .none
    | some v => exact .some (.refl v)
  · exact h k

/-- Texts agree only with themselves. -/
theorem agrees_str_iff {s t : Text} : Agrees (.str s) (.str t) ↔ s = t := by
  constructor
  · rintro ⟨⟩
    rfl
  · rintro rfl
    exact .refl _

/-! ## Values with the same canonical form -/

/-- A field is found under its name, the pairs in it joined, if no other has that name. -/
theorem get?_joinedField_of_mem (hnodup : ((fields.map joinedField).map (·.1)).Nodup)
    {f : Text × Json} (hf : f ∈ fields) :
    Assoc.get? (fields.map joinedField) f.1.joined = some f.2.joinedAll :=
  (Assoc.get?_eq_some_iff hnodup).2 (List.mem_map_of_mem hf)

/-- Of two objects with the same canonical form, every field of one has its counterpart in the
other. -/
theorem exists_mem_of_canonical_eq
    (h : (obj fields).canonical.joinedAll = (obj fields').canonical.joinedAll) {f : Text × Json}
    (hf : f ∈ fields) :
    ∃ g ∈ fields', g.1.joined = f.1.joined ∧ f.2.canonical.joinedAll = g.2.canonical.joinedAll := by
  rw [canonical, canonical, joinedAll_obj, joinedAll_obj, obj.injEq] at h
  have hmem : joinedField (f.1, f.2.canonical) ∈
      (sortFields (canonicalFields fields)).map joinedField :=
    List.mem_map_of_mem (mem_sortFields_canonicalFields.2 ⟨f, hf, rfl⟩)
  rw [h, List.mem_map] at hmem
  obtain ⟨f', hf', heq⟩ := hmem
  obtain ⟨g, hg, rfl⟩ := mem_sortFields_canonicalFields.1 hf'
  obtain ⟨hname, hvalue⟩ := Prod.mk.inj heq
  exact ⟨g, hg, hname, hvalue.symm⟩

/-- Values without parts are in canonical form. -/
theorem eq_of_canonical_eq (hv : v.canonical.joinedAll = v.joinedAll)
    (harr : ∀ items, v.joinedAll ≠ .arr items) (hobj : ∀ fields, v.joinedAll ≠ .obj fields)
    (h : v.canonical.joinedAll = w.canonical.joinedAll) : v.joinedAll = w.joinedAll := by
  rw [hv] at h
  cases w with
  | arr items => exact absurd h (harr _)
  | obj fields => exact absurd h (hobj _)
  | _ => exact h

/-- **Canonical form.** Values whose canonical forms are the same, the pairs in them joined, agree
when the pairs in them are joined, if this makes no two names of an object the same. -/
theorem agrees_of_canonical_eq (hv : v.joinedAll.isRegular) (hw : w.joinedAll.isRegular)
    (h : v.canonical.joinedAll = w.canonical.joinedAll) : Agrees v.joinedAll w.joinedAll := by
  induction v generalizing w with
  | arr items ih =>
    cases w with
    | arr items' =>
      simp only [canonical, canonicalItems_eq_map, joinedAll_arr, arr.injEq, List.map_map] at h
      rw [isRegular_joinedAll_arr] at hv hw
      rw [joinedAll_arr, joinedAll_arr]
      refine .arr ?_
      induction items generalizing items' with
      | nil =>
        obtain rfl : items' = [] := by simpa using h
        exact .nil
      | cons v items ih' =>
        cases items' with
        | nil => simp at h
        | cons w items' =>
          rw [List.map_cons, List.map_cons, List.cons.injEq] at h
          rw [List.forall_mem_cons] at hv hw
          exact .cons (ih v (by simp) hv.1 hw.1 h.1)
            (ih' (fun v hv => ih v (List.mem_cons_of_mem _ hv)) hv.2 items' hw.2 h.2)
    | _ => simp [canonical, joinedAll] at h
  | obj fields ih =>
    cases w with
    | obj fields' =>
      rw [isRegular_joinedAll_obj] at hv hw
      rw [joinedAll_obj, joinedAll_obj]
      refine .obj fun k => ?_
      cases ha : Assoc.get? (fields.map joinedField) k with
      | some a =>
        obtain ⟨f, hf, heq⟩ := List.mem_map.1 (Assoc.mem_of_get?_eq_some ha)
        obtain ⟨rfl, rfl⟩ := Prod.mk.inj heq
        obtain ⟨g, hg, hname, hvalue⟩ := exists_mem_of_canonical_eq h hf
        rw [← hname, get?_joinedField_of_mem hw.1 hg]
        exact .some (ih f hf (hv.2 f hf) (hw.2 g hg) hvalue)
      | none =>
        cases hb : Assoc.get? (fields'.map joinedField) k with
        | none => exact .none
        | some b =>
          -- The field would have its counterpart in the first object.
          obtain ⟨g, hg, heq⟩ := List.mem_map.1 (Assoc.mem_of_get?_eq_some hb)
          obtain ⟨rfl, rfl⟩ := Prod.mk.inj heq
          obtain ⟨f, hf, hname, -⟩ := exists_mem_of_canonical_eq h.symm hg
          rw [← hname, get?_joinedField_of_mem hv.1 hf] at ha
          exact absurd ha (by simp)
    | _ => simp [canonical, joinedAll] at h
  | _ =>
    rw [eq_of_canonical_eq rfl (by simp [joinedAll]) (by simp [joinedAll]) h]
    exact .refl _

/-- Values whose canonical forms have the same text agree when the pairs in them are joined. -/
theorem agrees_of_write_canonical_eq (hv : v.joinedAll.isRegular) (hw : w.joinedAll.isRegular)
    (h : write v.canonical = write w.canonical) : Agrees v.joinedAll w.joinedAll := by
  have hends : Ends (Text.ofChars []) := by simp [Ends]
  have hwrite : write v.canonical.joinedAll ++ [] = write w.canonical.joinedAll ++ [] := by
    rw [write_joinedAll, write_joinedAll, h]
  have hcanonical := write_append_inj (isRegular_joinedAll_canonical hv)
    (isRegular_joinedAll_canonical hw) hends hends hwrite
  exact agrees_of_canonical_eq hv hw hcanonical.1

end Dialectic.Json
