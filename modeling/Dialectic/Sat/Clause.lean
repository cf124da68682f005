/-!
# Clauses and models

A literal is a non-zero integer: the number of a variable, negative when the variable is negated. A
clause is a list of literals of which one has to hold, and a model lists, for the variables
`1, …, k` in turn, the literal that holds.
-/

namespace Dialectic.Sat

/-- Literals of which at least one has to hold. -/
abbrev Clause := List Int

/-- The literals that hold. -/
abbrev Model := List Int

/-! ## Variables -/

/-- The largest variable of a clause, zero if it has none. -/
def Clause.maxVar (c : Clause) : Nat := c.foldl (fun n l => max n l.natAbs) 0

/-- The largest variable of a list of clauses, zero if there is none. -/
def maxVar (cs : List Clause) : Nat := cs.foldl (fun n c => max n (Clause.maxVar c)) 0

/-- The largest of a number and further ones can be found in any order. -/
theorem foldl_max {α : Type _} (f : α → Nat) (xs : List α) (n : Nat) :
    xs.foldl (fun n x => max n (f x)) n = max n (xs.foldl (fun n x => max n (f x)) 0) := by
  induction xs generalizing n with
  | nil => simp
  | cons x xs ih =>
    rw [List.foldl_cons, List.foldl_cons, ih (max n (f x)), ih (max 0 (f x))]
    omega

@[simp] theorem Clause.maxVar_nil : Clause.maxVar [] = 0 := rfl

@[simp] theorem Clause.maxVar_cons (l : Int) (c : Clause) :
    Clause.maxVar (l :: c) = max l.natAbs (Clause.maxVar c) := by
  rw [maxVar, List.foldl_cons, foldl_max Int.natAbs]
  simp [maxVar]

@[simp] theorem maxVar_nil : maxVar [] = 0 := rfl

@[simp] theorem maxVar_cons (c : Clause) (cs : List Clause) :
    maxVar (c :: cs) = max (Clause.maxVar c) (maxVar cs) := by
  rw [maxVar, List.foldl_cons, foldl_max Clause.maxVar]
  simp [maxVar]

@[simp] theorem maxVar_append (cs ds : List Clause) :
    maxVar (cs ++ ds) = max (maxVar cs) (maxVar ds) := by
  induction cs with
  | nil => simp
  | cons c cs ih => simp [ih, Nat.max_assoc]

/-- A bound on the variable of every literal bounds the largest variable. -/
theorem Clause.maxVar_le {c : Clause} {k : Nat} (h : ∀ l ∈ c, l.natAbs ≤ k) :
    Clause.maxVar c ≤ k := by
  induction c with
  | nil => simp
  | cons l c ih =>
    have h₁ := h l (by simp)
    have h₂ := ih fun x hx => h x (List.mem_cons_of_mem _ hx)
    simp only [maxVar_cons]
    omega

/-- The variable of a literal is at most the largest variable of its clause. -/
theorem Clause.natAbs_le_maxVar {c : Clause} {l : Int} (h : l ∈ c) :
    l.natAbs ≤ Clause.maxVar c := by
  induction c with
  | nil => simp at h
  | cons x c ih =>
    rcases List.mem_cons.1 h with rfl | h
    · simp only [maxVar_cons]
      omega
    · have := ih h
      simp only [maxVar_cons]
      omega

/-- The variable of a literal is at most the largest variable of the clauses it occurs in. -/
theorem natAbs_le_maxVar {cs : List Clause} {c : Clause} {l : Int} (hc : c ∈ cs) (hl : l ∈ c) :
    l.natAbs ≤ maxVar cs := by
  induction cs with
  | nil => simp at hc
  | cons d cs ih =>
    rcases List.mem_cons.1 hc with rfl | hc
    · have := Clause.natAbs_le_maxVar hl
      simp only [maxVar_cons]
      omega
    · have := ih hc
      simp only [maxVar_cons]
      omega

/-- A bound on the variable of every literal bounds the largest variable of some clauses. -/
theorem maxVar_le {cs : List Clause} {k : Nat} (h : ∀ c ∈ cs, ∀ l ∈ c, l.natAbs ≤ k) :
    maxVar cs ≤ k := by
  induction cs with
  | nil => simp
  | cons c cs ih =>
    have h₁ := Clause.maxVar_le (h c (by simp))
    have h₂ := ih fun d hd => h d (List.mem_cons_of_mem _ hd)
    simp only [maxVar_cons]
    omega

/-! ## Satisfaction -/

/-- Whether a model makes one of the literals of a clause true. -/
def Clause.holds (m : Model) (c : Clause) : Bool := c.any fun l => decide (l ∈ m)

/-- Whether a model makes every clause true. -/
def satisfies (m : Model) (cs : List Clause) : Bool := cs.all (Clause.holds m)

/-- A clause holds in a model that has one of its literals. -/
theorem Clause.holds_iff {m : Model} {c : Clause} : Clause.holds m c ↔ ∃ l ∈ c, l ∈ m := by
  simp [Clause.holds]

/-- A model satisfies clauses that each have one of its literals. -/
theorem satisfies_iff {m : Model} {cs : List Clause} :
    satisfies m cs ↔ ∀ c ∈ cs, ∃ l ∈ c, l ∈ m := by
  simp [satisfies, Clause.holds_iff]

@[simp] theorem satisfies_append (m : Model) (cs ds : List Clause) :
    satisfies m (cs ++ ds) = (satisfies m cs && satisfies m ds) := by
  simp [satisfies]

@[simp] theorem satisfies_nil (m : Model) : satisfies m [] = true := rfl

@[simp] theorem satisfies_cons (m : Model) (c : Clause) (cs : List Clause) :
    satisfies m (c :: cs) = (Clause.holds m c && satisfies m cs) := rfl

/-- Clauses made of the elements of a list are true exactly if each of them holds. -/
theorem satisfies_map {α : Type _} {m : Model} {g : α → Clause} {xs : List α} :
    satisfies m (xs.map g) ↔ ∀ x ∈ xs, Clause.holds m (g x) := by
  simp [satisfies]

/-- Lists of clauses put one after the other are true exactly if each of them is. -/
theorem satisfies_flatMap {α : Type _} {m : Model} {g : α → List Clause} {xs : List α} :
    satisfies m (xs.flatMap g) ↔ ∀ x ∈ xs, satisfies m (g x) := by
  simp [satisfies]

@[simp] theorem Clause.holds_nil (m : Model) : Clause.holds m [] = false := rfl

@[simp] theorem Clause.holds_cons (m : Model) (l : Int) (c : Clause) :
    Clause.holds m (l :: c) = (decide (l ∈ m) || Clause.holds m c) := rfl

@[simp] theorem Clause.holds_append (m : Model) (c d : Clause) :
    Clause.holds m (c ++ d) = (Clause.holds m c || Clause.holds m d) := by
  simp [Clause.holds]

/-- A clause made of the elements of a list holds exactly if one of its literals does. -/
theorem Clause.holds_map {α : Type _} {m : Model} {g : α → Int} {xs : List α} :
    Clause.holds m (xs.map g) ↔ ∃ x ∈ xs, g x ∈ m := by
  simp [Clause.holds]

/-! ## Total models -/

/-- A total model over the variables `1, …, k` decides each of them, in order. -/
def IsTotal (k : Nat) (m : Model) : Prop := m.map Int.natAbs = List.range' 1 k

instance (k : Nat) (m : Model) : Decidable (IsTotal k m) := by
  unfold IsTotal
  infer_instance

/-- All total models over the variables `1, …, k`. -/
def assignments : Nat → List Model
  | 0 => [[]]
  | k + 1 => (assignments k).flatMap fun m => [m ++ [(k + 1 : Int)], m ++ [-(k + 1 : Int)]]

/-- The total models over the occurring variables that make every clause true. -/
def models (cs : List Clause) : List Model :=
  (assignments (maxVar cs)).filter fun m => satisfies m cs

namespace IsTotal

variable {k : Nat} {m : Model}

/-- The variables of a total model are `1, …, k`. -/
theorem natAbs_mem (h : IsTotal k m) {l : Int} (hl : l ∈ m) : 1 ≤ l.natAbs ∧ l.natAbs ≤ k := by
  have : l.natAbs ∈ List.range' 1 k := h ▸ List.mem_map_of_mem hl
  rw [List.mem_range'_1] at this
  omega

/-- No literal of a total model is zero. -/
theorem ne_zero (h : IsTotal k m) {l : Int} (hl : l ∈ m) : l ≠ 0 := by
  have := h.natAbs_mem hl
  omega

/-- A total model decides every variable. -/
theorem mem_or_neg_mem (h : IsTotal k m) {l : Int} (h₁ : l ≠ 0) (h₂ : l.natAbs ≤ k) :
    l ∈ m ∨ -l ∈ m := by
  have : l.natAbs ∈ m.map Int.natAbs := by
    rw [h, List.mem_range'_1]
    omega
  obtain ⟨x, hx, hxl⟩ := List.mem_map.1 this
  rcases Int.natAbs_eq_natAbs_iff.1 hxl with rfl | rfl
  · exact Or.inl hx
  · exact Or.inr (by simpa using hx)

/-- Two literals of a total model with one variable are the same. -/
theorem eq_of_natAbs_eq (h : IsTotal k m) {x y : Int} (hx : x ∈ m) (hy : y ∈ m)
    (hxy : x.natAbs = y.natAbs) : x = y := by
  have hnd : (m.map Int.natAbs).Nodup := h ▸ List.nodup_range'
  clear h
  induction m with
  | nil => simp at hx
  | cons z m ih =>
    rw [List.map_cons, List.nodup_cons] at hnd
    rcases List.mem_cons.1 hx with hxz | hxm <;> rcases List.mem_cons.1 hy with hyz | hym
    · rw [hxz, hyz]
    · exact absurd (hxz ▸ hxy ▸ List.mem_map_of_mem hym) hnd.1
    · exact absurd (hyz ▸ hxy ▸ List.mem_map_of_mem hxm) hnd.1
    · exact ih hxm hym hnd.2

/-- A total model does not hold a literal and its negation. -/
theorem neg_not_mem (h : IsTotal k m) {l : Int} (hl : l ∈ m) : -l ∉ m := by
  intro hn
  have h₁ := h.eq_of_natAbs_eq hl hn (by simp)
  have h₂ := h.ne_zero hl
  omega

end IsTotal

/-! ## The list of all models -/

/-- The total models over `1, …, k` are exactly the listed ones. -/
theorem mem_assignments {k : Nat} {m : Model} : m ∈ assignments k ↔ IsTotal k m := by
  induction k generalizing m with
  | zero => simp [assignments, IsTotal]
  | succ k ih =>
    rw [assignments, List.mem_flatMap]
    unfold IsTotal at ih ⊢
    rw [List.range'_1_concat]
    constructor
    · rintro ⟨n, hn, hm⟩
      rw [ih] at hn
      simp only [List.mem_cons, List.not_mem_nil, or_false] at hm
      rcases hm with rfl | rfl
      · simp only [List.map_append, hn, List.map_cons, List.map_nil]
        congr 2
        omega
      · simp only [List.map_append, hn, List.map_cons, List.map_nil]
        congr 2
        omega
    · intro h
      obtain ⟨n, l, rfl, hn, hl⟩ := List.map_eq_append_iff.1 h
      refine ⟨n, ih.2 hn, ?_⟩
      obtain ⟨x, rfl, hx⟩ := List.map_eq_singleton_iff.1 hl
      have : x = (k : Int) + 1 ∨ x = -((k : Int) + 1) := by omega
      rcases this with rfl | rfl <;> simp

/-- A model is listed exactly if it is total and makes every clause true. -/
theorem mem_models {cs : List Clause} {m : Model} :
    m ∈ models cs ↔ IsTotal (maxVar cs) m ∧ satisfies m cs := by
  simp [models, mem_assignments]

end Dialectic.Sat
