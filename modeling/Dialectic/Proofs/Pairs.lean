import Dialectic.Proofs.Canonical
import Dialectic.Proofs.Parts

/-!
# Values with the pairs in them joined

Two surrogates of a text or a name that make a pair are written like the character of the pair, so a
text does not show which of the two was written. A value in which all pairs are joined, however deep
they lie in it, has the same text (`write_joinedAll`), and a regular value has none to be joined
(`joinedAll_of_isRegular`). Neither have names of characters below `U+10000`, so that such names are
found where they were (`get?_joinedField`).
-/

namespace Dialectic

/-! ## Texts without pairs -/

/-- Joining gives a text of lower characters only if it is the text itself. -/
theorem Text.eq_of_joined_eq {t : Text} {cs : List Char} (hcs : ∀ c ∈ cs, c.toNat < 0x10000)
    (h : joined t = ofChars cs) : t = ofChars cs := by
  fun_induction joined t generalizing cs with
  | case1 => exact h
  | case2 u v t hpair ih =>
    -- The character of a pair is not among the lower ones.
    cases cs with
    | nil => exact absurd h (List.cons_ne_nil _ _)
    | cons c cs =>
      have hnumber := Json.toNat_ofPair hpair
      have hlow := hcs c (List.mem_cons_self ..)
      rw [(List.cons.inj h).1, CodePoint.toNat] at hnumber
      omega
  | case3 u v t hnot ih =>
    cases cs with
    | nil => exact absurd h (List.cons_ne_nil _ _)
    | cons c cs => exact absurd (List.cons.inj h).1 (by simp)
  | case4 p t hnot ih =>
    cases cs with
    | nil => exact absurd h (List.cons_ne_nil _ _)
    | cons c cs =>
      rw [List.forall_mem_cons] at hcs
      obtain ⟨hhead, htail⟩ := List.cons.inj h
      rw [ofChars_cons, hhead, ih hcs.2 htail]

namespace Json

variable {v : Json} {items : List Json} {fields : List (Text × Json)}

/-! ## Joining everywhere -/

mutual

/-- A value in which the surrogates of all pairs, in texts and in names, have become the characters
of the pairs. -/
def joinedAll : Json → Json
  | .str t => .str t.joined
  | .arr items => .arr (joinedAllItems items)
  | .obj fields => .obj (joinedAllFields fields)
  | .null => .null
  | .bool b => .bool b
  | .int n => .int n
  | .float x => .float x

/-- The items of a list with all pairs in them joined. -/
def joinedAllItems : List Json → List Json
  | [] => []
  | v :: rest => v.joinedAll :: joinedAllItems rest

/-- The fields of an object with all pairs in them joined. -/
def joinedAllFields : List (Text × Json) → List (Text × Json)
  | [] => []
  | (k, v) :: rest => (k.joined, v.joinedAll) :: joinedAllFields rest

end

/-- A field with all pairs in it joined. -/
def joinedField (f : Text × Json) : Text × Json := (f.1.joined, f.2.joinedAll)

theorem joinedAll_arr (items : List Json) : (arr items).joinedAll = .arr (items.map joinedAll) := by
  rw [joinedAll]
  induction items with
  | nil => rfl
  | cons v items ih => rw [joinedAllItems, List.map_cons, arr.inj ih]

theorem joinedAll_obj (fields : List (Text × Json)) :
    (obj fields).joinedAll = .obj (fields.map joinedField) := by
  rw [joinedAll]
  induction fields with
  | nil => rfl
  | cons f fields ih =>
    rw [joinedAllFields, List.map_cons, obj.inj ih]
    rfl

/-- The names of fields, with the pairs in them joined. -/
theorem keys_map_joinedField (fields : List (Text × Json)) :
    (fields.map joinedField).map (·.1) = (fields.map (·.1)).map Text.joined := by
  rw [List.map_map, List.map_map]
  rfl

/-- A value is written like the value with all pairs in it joined. -/
theorem write_joinedAll (v : Json) : v.joinedAll.write = v.write := by
  induction v with
  | str t => rw [joinedAll, write, write, writeString, writeString, flatMap_escapePoint_joined]
  | arr items ih =>
    have hitems : items.map (write ∘ joinedAll) = items.map write := List.map_congr_left ih
    rw [joinedAll_arr, write, write, writeItems_eq_map, writeItems_eq_map, List.map_map, hitems]
  | obj fields ih =>
    have hfield : ∀ f ∈ fields, writeField (joinedField f) = writeField f := fun f hf => by
      rw [writeField, writeField, joinedField, ih f hf, writeString, writeString,
        flatMap_escapePoint_joined]
    have hfields : fields.map (writeField ∘ joinedField) = fields.map writeField :=
      List.map_congr_left hfield
    rw [joinedAll_obj, write, write, writeFields_eq_map, writeFields_eq_map, List.map_map, hfields]
  | _ => rfl

/-- A regular value has no pairs that could be joined. -/
theorem joinedAll_of_isRegular (h : v.isRegular) : v.joinedAll = v := by
  induction v with
  | str t => exact congrArg _ (of_decide_eq_true h)
  | arr items ih =>
    rw [joinedAll_arr, List.map_congr_left fun v hv =>
      ih v hv (isRegular_arr.1 h v hv), List.map_id']
  | obj fields ih =>
    have hfield : ∀ f ∈ fields, joinedField f = f := fun f hf =>
      Prod.ext ((isRegular_obj.1 h).2 f hf).1 (ih f hf ((isRegular_obj.1 h).2 f hf).2)
    rw [joinedAll_obj, List.map_congr_left hfield, List.map_id']
  | _ => rfl

/-! ## Objects whose names differ when their pairs are joined -/

theorem isRegular_joinedAll_arr :
    (arr items).joinedAll.isRegular ↔ ∀ v ∈ items, v.joinedAll.isRegular := by
  rw [joinedAll_arr, isRegular_arr, List.forall_mem_map]

/-- An object is regular once all pairs are joined, if no two of its keys get equal and its values
are so. -/
theorem isRegular_joinedAll_obj : (obj fields).joinedAll.isRegular ↔
    ((fields.map joinedField).map (·.1)).Nodup ∧ ∀ f ∈ fields, f.2.joinedAll.isRegular := by
  rw [joinedAll_obj, isRegular_obj, List.forall_mem_map]
  exact and_congr_right fun _ => forall₂_congr fun f _ => and_iff_right f.1.joined_joined

/-- Taking a field away leaves the names of an object different. -/
theorem isRegular_joinedAll_erase (h : (obj fields).joinedAll.isRegular) (key : Text) :
    (obj (Assoc.erase fields key)).joinedAll.isRegular := by
  rw [isRegular_joinedAll_obj] at h ⊢
  exact ⟨h.1.sublist ((List.filter_sublist.map _).map _), fun f hf =>
    h.2 f (List.mem_filter.1 hf).1⟩

/-- Putting the fields of objects in order leaves their names different. -/
theorem isRegular_joinedAll_canonical (h : v.joinedAll.isRegular) :
    v.canonical.joinedAll.isRegular := by
  induction v with
  | arr items ih =>
    rw [canonical, canonicalItems_eq_map, isRegular_joinedAll_arr, List.forall_mem_map]
    exact fun v hv => ih v hv (isRegular_joinedAll_arr.1 h v hv)
  | obj fields ih =>
    obtain ⟨hnodup, hfields⟩ := isRegular_joinedAll_obj.1 h
    rw [canonical, isRegular_joinedAll_obj]
    refine ⟨?_, fun f hf => ?_⟩
    · rw [keys_map_joinedField] at hnodup ⊢
      exact ((keys_sortFields_canonicalFields fields).map _).nodup_iff.2 hnodup
    · obtain ⟨g, hg, rfl⟩ := mem_sortFields_canonicalFields.1 hf
      exact ih g hg (hfields g hg)
  | _ => exact h

/-! ## Looking names up -/

/-- A name of lower characters is found where it was. -/
theorem get?_joinedField {cs : List Char} (hcs : ∀ c ∈ cs, c.toNat < 0x10000) :
    Assoc.get? (fields.map joinedField) (Text.ofChars cs) =
      (Assoc.get? fields (Text.ofChars cs)).map joinedAll := by
  induction fields with
  | nil => rfl
  | cons f fields ih =>
    obtain ⟨k, v⟩ := f
    have hname : k.joined = Text.ofChars cs ↔ k = Text.ofChars cs :=
      ⟨Text.eq_of_joined_eq hcs, fun h => h ▸ Text.joined_ofChars cs⟩
    rw [List.map_cons, joinedField, Assoc.get?, Assoc.get?, ih]
    by_cases hk : k = Text.ofChars cs
    · rw [if_pos hk, if_pos (hname.2 hk), Option.map_some]
    · rw [if_neg hk, if_neg (hname.not.2 hk)]

/-- Taking a name away leaves the names that are others when they are joined. -/
theorem get?_joinedField_erase (fields : List (Text × Json)) {key k : Text}
    (hk : k ≠ key.joined) :
    Assoc.get? ((Assoc.erase fields key).map joinedField) k =
      Assoc.get? (fields.map joinedField) k := by
  induction fields with
  | nil => rfl
  | cons f fields ih =>
    rw [Assoc.erase] at ih ⊢
    by_cases hf : f.1 = key
    · rw [List.filter_cons_of_neg (by simpa using hf), ih, List.map_cons, joinedField, Assoc.get?,
        if_neg (hf ▸ hk.symm)]
    · rw [List.filter_cons_of_pos (by simpa using hf), List.map_cons, List.map_cons, joinedField,
        Assoc.get?, Assoc.get?, ih]

end Json

end Dialectic
