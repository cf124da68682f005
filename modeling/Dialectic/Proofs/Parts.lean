import Dialectic.Proofs.Strings
import Mathlib.Logic.Basic

/-!
# Values and their parts

What holds of a value if it holds of its parts holds of every value (`Json.induction`). With it goes
what a text of a value does not show by itself: whether the names in its objects differ
(`Json.isRegular`), which is not changed by putting fields in order.
-/

namespace Dialectic.Json

variable {v : Json} {items : List Json} {fields : List (Text × Json)}

/-! ## Induction -/

/-- Induction on values: of a list and an object it may be assumed for what they have in them. -/
@[elab_as_elim, induction_eliminator]
theorem induction {P : Json → Prop} (null : P .null) (bool : ∀ b, P (.bool b))
    (int : ∀ n, P (.int n)) (float : ∀ x, P (.float x)) (str : ∀ t, P (.str t))
    (arr : ∀ items, (∀ v ∈ items, P v) → P (.arr items))
    (obj : ∀ fields, (∀ f ∈ fields, P f.2) → P (.obj fields)) : ∀ v, P v
  | .null => null
  | .bool b => bool b
  | .int n => int n
  | .float x => float x
  | .str t => str t
  | .arr items => arr items fun v _ => induction null bool int float str arr obj v
  | .obj fields => obj fields fun f _ => induction null bool int float str arr obj f.2
termination_by v => sizeOf v
decreasing_by
  · have := List.sizeOf_lt_of_mem ‹v ∈ items›
    simp only [Json.arr.sizeOf_spec]
    omega
  · obtain ⟨k, v⟩ := f
    have := List.sizeOf_lt_of_mem ‹(k, v) ∈ fields›
    simp only [Prod.mk.sizeOf_spec, Json.obj.sizeOf_spec] at this ⊢
    omega

/-! ## Lists of parts -/

/-- The text of a field. -/
def writeField (f : Text × Json) : List Char := writeString f.1 ++ ':' :: ' ' :: f.2.write

theorem writeItems_eq_map (items : List Json) : writeItems items = items.map write := by
  induction items with
  | nil => rfl
  | cons v items ih => rw [writeItems, ih, List.map_cons]

theorem writeFields_eq_map (fields : List (Text × Json)) :
    writeFields fields = fields.map writeField := by
  induction fields with
  | nil => rfl
  | cons f fields ih =>
    rw [writeFields, ih, List.map_cons]
    rfl

theorem canonicalItems_eq_map (items : List Json) : canonicalItems items = items.map canonical := by
  induction items with
  | nil => rfl
  | cons v items ih => rw [canonicalItems, ih, List.map_cons]

theorem canonicalFields_eq_map (fields : List (Text × Json)) :
    canonicalFields fields = fields.map fun f => (f.1, f.2.canonical) := by
  induction fields with
  | nil => rfl
  | cons f fields ih => rw [canonicalFields, ih, List.map_cons]

/-! ## Regular values -/

mutual

/-- Whether no object has a name twice and no text or name has two surrogates that make a pair, as
is the case for every value that a JSON text can mean. -/
def isRegular : Json → Bool
  | .str t => t.joined = t
  | .arr items => areRegular items
  | .obj fields => decide (fields.map (·.1)).Nodup && areRegularFields fields
  | _ => true

/-- Whether all items of a list are regular. -/
def areRegular : List Json → Bool
  | [] => true
  | v :: rest => v.isRegular && areRegular rest

/-- Whether all fields of an object are regular. -/
def areRegularFields : List (Text × Json) → Bool
  | [] => true
  | (k, v) :: rest => decide (k.joined = k) && v.isRegular && areRegularFields rest

end

theorem isRegular_arr : (arr items).isRegular ↔ ∀ v ∈ items, v.isRegular := by
  rw [isRegular]
  induction items with
  | nil => simp [areRegular]
  | cons v items ih => simp [areRegular, ih]

/-- An object is regular if no key comes twice or has a pair to join, and its values are regular. -/
theorem isRegular_obj :
    (obj fields).isRegular ↔ (fields.map (·.1)).Nodup ∧ ∀ f ∈ fields,
      f.1.joined = f.1 ∧ f.2.isRegular := by
  have hall : ∀ fields, areRegularFields fields ↔
      ∀ f ∈ fields, f.1.joined = f.1 ∧ f.2.isRegular := by
    intro fields
    induction fields with
    | nil => simp [areRegularFields]
    | cons f fields ih => simp [areRegularFields, ih, and_assoc]
  rw [isRegular, Bool.and_eq_true, decide_eq_true_iff, hall]

/-! ## Size and depth -/

theorem isWritable_arr : (arr items).isWritable ↔ ∀ v ∈ items, v.isWritable := by
  rw [isWritable]
  induction items with
  | nil => simp [areWritable]
  | cons v items ih => simp [areWritable, ih]

theorem isWritable_obj : (obj fields).isWritable ↔ ∀ f ∈ fields, f.2.isWritable := by
  rw [isWritable]
  induction fields with
  | nil => simp [areWritableFields]
  | cons f fields ih =>
    obtain ⟨k, v⟩ := f
    simp [areWritableFields, ih]

theorem depth_arr_le {n : Nat} : (arr items).depth ≤ n + 1 ↔ ∀ v ∈ items, v.depth ≤ n := by
  rw [depth, Nat.add_le_add_iff_right]
  induction items with
  | nil => simp [depthOfItems]
  | cons v items ih => rw [depthOfItems, Nat.max_le, ih, List.forall_mem_cons]

theorem depth_obj_le {n : Nat} : (obj fields).depth ≤ n + 1 ↔ ∀ f ∈ fields, f.2.depth ≤ n := by
  rw [depth, Nat.add_le_add_iff_right]
  induction fields with
  | nil => simp [depthOfFields]
  | cons f fields ih =>
    obtain ⟨k, v⟩ := f
    rw [depthOfFields, Nat.max_le, ih, List.forall_mem_cons]

/-! ## Objects without a field -/

/-! ## Values in canonical form -/

/-- Sorting the fields loses none of them. -/
theorem perm_sortFields (fields : List (Text × Json)) :
    (sortFields fields).Perm fields := List.mergeSort_perm _ _

/-- A field in canonical form is one of the fields, its value in canonical form. -/
theorem mem_sortFields_canonicalFields {f : Text × Json} :
    f ∈ sortFields (canonicalFields fields) ↔ ∃ g ∈ fields, (g.1, g.2.canonical) = f := by
  rw [(perm_sortFields _).mem_iff, canonicalFields_eq_map, List.mem_map]

/-- The canonical form has the same keys. -/
theorem keys_sortFields_canonicalFields (fields : List (Text × Json)) :
    ((sortFields (canonicalFields fields)).map (·.1)).Perm (fields.map (·.1)) := by
  refine ((perm_sortFields _).map _).trans ?_
  rw [canonicalFields_eq_map, List.map_map]
  exact List.Perm.refl _

end Dialectic.Json
