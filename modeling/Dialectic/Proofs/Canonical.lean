import Dialectic.Json.Printer
import Mathlib.Data.List.Sort

/-!
# The order of the fields in canonical form

Texts are ordered linearly by their code points, so the canonical order of fields with different
names is the only one in which the names ascend (`sortFields_eq`). Where no name occurs twice, the
value of a name is the one that it stands with, in any order (`Assoc.get?_eq_some_iff`).
-/

namespace Dialectic

/-! ## The order of texts -/

/-- A code point is determined by its number. -/
theorem CodePoint.toNat_injective {p p' : CodePoint} (h : p.toNat = p'.toNat) : p = p' := by
  have hchar : ∀ c : Char, ∀ u : Fin 2048, c.toNat ≠ 0xd800 + u.val := by
    intro c u
    have hvalid : c.toNat < 0xd800 ∨ (0xdfff < c.toNat ∧ c.toNat < 0x110000) := c.valid
    omega
  cases p with
  | char c =>
    cases p' with
    | char c' => rw [Char.toNat_inj.1 h]
    | surrogate u => exact absurd h (hchar c u)
  | surrogate u =>
    cases p' with
    | char c => exact absurd h.symm (hchar c u)
    | surrogate u' => rw [Fin.val_inj.1 (Nat.add_left_cancel h)]

namespace Text

/-- Texts are compared at the first place where they differ. -/
theorem le_cons {p p' : CodePoint} {s t : Text} :
    le (p :: s) (p' :: t) ↔ p.toNat < p'.toNat ∨ p = p' ∧ le s t := by
  rw [le]
  split
  · rename_i heq
    simp [heq]
  · rename_i hne
    simp [hne]

/-- Of two texts one comes before the other, or they are equal. -/
theorem le_total (s t : Text) : (le s t || le t s) = true := by
  induction s generalizing t with
  | nil => rfl
  | cons p s ih =>
    cases t with
    | nil => rfl
    | cons p' t =>
      rw [Bool.or_eq_true, le_cons, le_cons]
      have hboth := Bool.or_eq_true _ _ ▸ ih t
      rcases Nat.lt_trichotomy p.toNat p'.toNat with h | h | h
      · exact .inl (.inl h)
      · have heq := CodePoint.toNat_injective h
        exact hboth.imp (fun hle => .inr ⟨heq, hle⟩) fun hle => .inr ⟨heq.symm, hle⟩
      · exact .inr (.inl h)

theorem le_trans {r s t : Text} (h : le r s) (h' : le s t) : le r t := by
  induction r generalizing s t with
  | nil => rfl
  | cons p r ih =>
    cases s with
    | nil => exact absurd h Bool.false_ne_true
    | cons p' s =>
      cases t with
      | nil => exact absurd h' Bool.false_ne_true
      | cons p'' t =>
        rw [le_cons] at h h' ⊢
        rcases h with h | ⟨rfl, h⟩
        · rcases h' with h' | ⟨rfl, -⟩
          · exact .inl (Nat.lt_trans h h')
          · exact .inl h
        · exact h'.imp id fun h' => ⟨h'.1, ih h h'.2⟩

theorem le_antisymm {s t : Text} (h : le s t) (h' : le t s) : s = t := by
  induction s generalizing t with
  | nil =>
    cases t with
    | nil => rfl
    | cons p t => exact absurd h' Bool.false_ne_true
  | cons p s ih =>
    cases t with
    | nil => exact absurd h Bool.false_ne_true
    | cons p' t =>
      rw [le_cons] at h h'
      rcases h with h | ⟨rfl, h⟩
      · rcases h' with h' | ⟨rfl, -⟩
        · omega
        · omega
      · rcases h' with h' | ⟨-, h'⟩
        · omega
        · rw [ih h h']

end Text

/-! ## Looking names up -/

namespace Assoc

variable {κ α : Type} [DecidableEq κ] {m m' : List (κ × α)} {key : κ} {v : α}

/-- A value that is found stands with its key. -/
theorem mem_of_get?_eq_some (h : get? m key = some v) : (key, v) ∈ m := by
  induction m with
  | nil => simp at h
  | cons p m ih =>
    obtain ⟨k, u⟩ := p
    rw [get?] at h
    split at h
    · rename_i hk
      obtain rfl := Option.some.inj h
      rw [hk]
      exact List.mem_cons_self ..
    · exact List.mem_cons_of_mem _ (ih h)

/-- If no key occurs twice, the value of a key is the one that it stands with. -/
theorem get?_eq_some_iff (hnodup : (m.map (·.1)).Nodup) : get? m key = some v ↔ (key, v) ∈ m := by
  refine ⟨mem_of_get?_eq_some, fun h => ?_⟩
  induction m with
  | nil => simp at h
  | cons p m ih =>
    obtain ⟨k, u⟩ := p
    rw [List.map_cons, List.nodup_cons] at hnodup
    rcases List.mem_cons.1 h with heq | h
    · rw [Prod.mk.injEq] at heq
      rw [get?, if_pos heq.1.symm, heq.2]
    · have hne : k ≠ key := by
        rintro rfl
        exact hnodup.1 (List.mem_map.2 ⟨(k, v), h, rfl⟩)
      rw [get?, if_neg hne, ih hnodup.2 h]

end Assoc

/-! ## The order of fields -/

namespace Json

/-- The canonical order of fields with different names is the order in which the names ascend. -/
theorem sortFields_eq {fields sorted : List (Text × Json)} (hperm : fields.Perm sorted)
    (hnodup : (fields.map (·.1)).Nodup) (hsorted : sorted.Pairwise fun f g => Text.le f.1 g.1) :
    sortFields fields = sorted := by
  have htrans : ∀ f g k : Text × Json,
      Text.le f.1 g.1 = true → Text.le g.1 k.1 = true → Text.le f.1 k.1 = true :=
    fun _ _ _ => Text.le_trans
  have htotal : ∀ f g : Text × Json, (Text.le f.1 g.1 || Text.le g.1 f.1) = true :=
    fun f g => Text.le_total f.1 g.1
  have hmerged : (sortFields fields).Pairwise fun f g => Text.le f.1 g.1 :=
    List.pairwise_mergeSort htrans htotal fields
  have hback : (sortFields fields).Perm fields := List.mergeSort_perm _ _
  -- Two ascending lists of the same fields are equal, since no two fields have the same name.
  refine List.Perm.eq_of_pairwise (fun f g hf hg hfg hgf => ?_) hmerged hsorted (hback.trans hperm)
  exact List.inj_on_of_nodup_map hnodup (hback.mem_iff.1 hf) (hperm.mem_iff.2 hg)
    (Text.le_antisymm hfg hgf)

end Json

end Dialectic
