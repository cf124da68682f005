import Dialectic.Sat.Entailment
import Dialectic.Sat.Trail

/-!
# What is known of clauses

Clauses are given, and others are learned that follow from them. A refuted clause is a reason for a
new one: its literals are replaced by the literals they were inferred from, until one literal of the
present level is left. Main statements: what is learned follows from the clauses given, whatever the
trail says (`entails_trace`), and a valuation under which the root clauses hold makes all given
clauses hold (`hits_of_roots`).
-/

namespace Dialectic.Sat

/-- Clauses that were given, and clauses that follow from them. -/
structure Knowledge where
  /-- The clauses given. -/
  given : Array Clause := #[]
  /-- The largest variable of the clauses given. -/
  top : Nat := 0
  /-- Clauses that, if they hold, make those given hold. -/
  roots : Array (Array Int) := #[]
  /-- Clauses that follow from those given. -/
  clauses : Array (Array Int) := #[]
  /-- The largest variable is that. -/
  top_eq : top = maxVar given.toList := by rfl
  /-- Every clause given has all literals of a root. -/
  covered : ∀ c ∈ given.toList, ∃ d ∈ roots, ∀ l ∈ d, l ∈ c := by simp
  /-- The clauses follow from those given. -/
  entailed : ∀ c ∈ clauses, Entails given.toList c.toList := by simp

namespace Knowledge

/-! ## Clauses -/

/-- The clause of a number. -/
def clause (K : Knowledge) (i : Nat) : Array Int := K.clauses.getD i #[]

/-- The knowledge with one more clause that follows. -/
def push (K : Knowledge) (c : Clause) (h : Entails K.given.toList c) : Knowledge :=
  { K with
    clauses := K.clauses.push c.toArray
    entailed := by
      intro d hd
      rcases Array.mem_push.1 hd with hd | rfl
      · exact K.entailed d hd
      · simpa using h }

/-- The knowledge with those of its clauses that pass a test on their numbers. -/
def keep (K : Knowledge) (p : Nat → Bool) : Knowledge :=
  { K with
    clauses := (K.clauses.zipIdx.filter fun c => p c.2).map (·.1)
    entailed := by
      intro c hc
      obtain ⟨d, hd, rfl⟩ := Array.mem_map.1 hc
      exact K.entailed d.1 (Array.fst_mem_of_mem_zipIdx (Array.mem_filter.1 hd).1) }

/-- The knowledge when a clause is given; from it and what was given before another clause follows
that makes it hold. -/
def give (K : Knowledge) (c d : Clause) (hd : Entails (K.given.push c).toList d)
    (hs : ∀ l ∈ d, l ∈ c) : Knowledge where
  given := K.given.push c
  top := max K.top (Clause.maxVar c)
  roots := K.roots.push d.toArray
  clauses := K.clauses.push d.toArray
  top_eq := by simp [K.top_eq]
  covered := by
    intro e he
    rw [Array.toList_push, List.mem_append, List.mem_singleton] at he
    rcases he with he | rfl
    · obtain ⟨r, hr, hs⟩ := K.covered e he
      exact ⟨r, Array.mem_push_of_mem _ hr, hs⟩
    · exact ⟨d.toArray, Array.mem_push_self, by simpa using hs⟩
  entailed := by
    intro e he
    rcases Array.mem_push.1 he with he | rfl
    · exact (K.entailed e he).mono fun x hx => by simp [hx]
    · simpa using hd

@[simp] theorem given_push (K : Knowledge) (c : Clause) (h : Entails K.given.toList c) :
    (K.push c h).given = K.given := rfl

@[simp] theorem given_keep (K : Knowledge) (p : Nat → Bool) : (K.keep p).given = K.given := rfl

@[simp] theorem given_give (K : Knowledge) (c d : Clause) (hd) (hs) :
    (K.give c d hd hs).given = K.given.push c := rfl

/-- If all roots hold under a valuation, so do the clauses given. -/
theorem hits_of_roots {K : Knowledge} {a : Valuation} (h : a.hitsAll K.roots) :
    ∀ c ∈ K.given.toList, a.Hits c := by
  intro c hc
  obtain ⟨d, hd, hs⟩ := K.covered c hc
  obtain ⟨l, hl, hh⟩ := Valuation.hits_of_hitsAll h hd
  exact ⟨l, hs l (by simpa using hl), hh⟩

/-- The clause of a number is one of the clauses, if there are as many. -/
theorem clause_mem (K : Knowledge) {i : Nat} (h : i < K.clauses.size) : K.clause i ∈ K.clauses := by
  simp [clause, Array.getD, h]

/-! ## Learning -/

/-- Whether a literal is seen to be false in every model, because it was inferred from a single
literal that it is not. -/
def isVoid (K : Knowledge) (t : Trail) (l : Int) : Bool :=
  l == 0 ||
    match t.reason? l with
    | none => false
    | some i => (K.clause i).size == 1 && (K.clause i).getD 0 0 == -l

/-- The literals of a clause that are not seen to be false in every model. -/
def strip (K : Knowledge) (t : Trail) (c : Clause) : Clause := c.filter fun l => !K.isVoid t l

/-- Adds a literal to the first of two clauses or to the second. -/
def sort (K : Knowledge) (t : Trail) (isPresent : Int → Bool) (acc : Clause × Clause) (l : Int) :
    Clause × Clause :=
  if K.isVoid t l then acc
  else if isPresent l then (acc.1.insert l, acc.2)
  else (acc.1, acc.2.insert l)

/-- Adds the literals of a clause to the first of two clauses or to the second. -/
def sortAll (K : Knowledge) (t : Trail) (isPresent : Int → Bool) (acc : Clause × Clause)
    (c : Clause) :
    Clause × Clause := c.foldl (K.sort t isPresent) acc

/-- Goes back along the literals of a trail, and replaces those whose negation is in the first of
two clauses by what they were inferred from, until the first clause is done. The result also lists
the literals replaced. -/
def trace (K : Knowledge) (t : Trail) (isPresent : Int → Bool) (isDone : Clause → Bool) :
    List Int → Clause × Clause → List Int → (Clause × Clause) × List Int
  | [], acc, replaced => (acc, replaced)
  | l :: older, acc, replaced =>
    if isDone acc.1 then (acc, replaced)
    else if acc.1.contains (-l) then
      match t.reason? l with
      | none => K.trace t isPresent isDone older acc replaced
      | some i =>
        if i < K.clauses.size then
          let acc := K.sortAll t isPresent (acc.1.erase (-l), acc.2)
            ((K.clause i).toList.filter (· != l))
          K.trace t isPresent isDone older acc (l :: replaced)
        else (acc, replaced)
    else K.trace t isPresent isDone older acc replaced

/-- Whether a clause has at most one literal. -/
def isShort : Clause → Bool
  | [] | [_] => true
  | _ => false

/-- Of some literals, takes those out of a clause whose negation was inferred from a clause with no
other literals than the clause has already. -/
def shorten (K : Knowledge) (t : Trail) : List Int → Clause → Clause
  | [], c => c
  | l :: ls, c =>
    match t.reason? l with
    | none => K.shorten t ls c
    | some i =>
      if i < K.clauses.size ∧ (K.clause i).all fun x =>
        x == -l || K.isVoid t x || (c.erase l).contains x then
        K.shorten t ls (c.erase l)
      else K.shorten t ls c

/-- What is learned from a refuted clause: a clause with one literal of the present level; and the
literals that were replaced on the way to it. -/
def lesson (K : Knowledge) (t : Trail) (c : Clause) : Clause × List Int :=
  let isPresent := fun l => t.levelOf l == t.level
  let (acc, replaced) :=
    K.trace t isPresent isShort t.literals
      (K.sortAll t isPresent ([], []) c) []
  (K.shorten t acc.2 (acc.1 ++ acc.2), replaced)

/-- The decisions that a refuted clause goes back to. -/
def decisions (K : Knowledge) (t : Trail) (c : Clause) : Clause :=
  let isPresent := fun _ => true
  let acc := (K.trace t isPresent (fun _ => false) t.literals
    (K.sortAll t isPresent ([], []) c) []).1
  acc.1 ++ acc.2

/-! ### Why it is right -/

variable {K : Knowledge} {cs : List Clause}

/-- A literal that is seen to be false in every model is. -/
theorem not_mem_of_isVoid (hK : ∀ d ∈ K.clauses, Entails cs d.toList) {t : Trail} {l : Int}
    (h : K.isVoid t l) {k : Nat} {m : Model} (hm : IsTotal k m) (hs : satisfies m cs) : l ∉ m := by
  intro hl
  unfold isVoid at h
  rw [Bool.or_eq_true, beq_iff_eq] at h
  rcases h with rfl | h
  · exact hm.ne_zero hl rfl
  · split at h
    · simp at h
    · rename_i i hi
      simp only [Bool.and_eq_true, beq_iff_eq] at h
      have hi : i < K.clauses.size := by
        by_cases hi : i < K.clauses.size
        · exact hi
        · simp [clause, Array.getD, hi] at h
      obtain ⟨x, hx, hxm⟩ := hK _ (K.clause_mem hi) k m hm hs
      obtain ⟨y, hy⟩ := Array.size_eq_one_iff.1 h.1
      rw [hy] at h hx
      simp only [List.mem_singleton, Array.getD] at h hx
      simp only [List.size_toArray, List.length_cons, List.length_nil, Nat.zero_add,
        Nat.zero_lt_one, ↓reduceDIte, Array.getInternal_eq_getElem, List.getElem_toArray,
        List.getElem_cons_zero] at h
      exact hm.neg_not_mem hl (h.2 ▸ hx ▸ hxm)

/-- Literals that are false in every model can be left out. -/
theorem entails_strip (hK : ∀ d ∈ K.clauses, Entails cs d.toList) {t : Trail} {c : Clause}
    (h : Entails cs c) : Entails cs (K.strip t c) := by
  apply h.drop
  intro x hx
  by_cases hv : K.isVoid t x
  · exact Or.inr fun _ _ hm hs => not_mem_of_isVoid hK hv hm hs
  · exact Or.inl (by simp [strip, hx, hv])

/-- Sorting keeps what is there. -/
theorem mem_sortAll_of_mem {t : Trail} {isPresent : Int → Bool} {a : Clause × Clause} {c : Clause}
    {x : Int} (h : x ∈ a.1 ++ a.2) :
    x ∈ (K.sortAll t isPresent a c).1 ++ (K.sortAll t isPresent a c).2 := by
  unfold sortAll
  induction c generalizing a with
  | nil => exact h
  | cons y c ih =>
    rw [List.foldl_cons]
    apply ih
    unfold sort
    rw [List.mem_append] at h ⊢
    split
    · exact h
    · split
      · exact h.imp_left List.mem_insert_of_mem
      · exact h.imp_right List.mem_insert_of_mem

/-- Sorting adds all literals that are not false in every model. -/
theorem mem_sortAll {t : Trail} {isPresent : Int → Bool} {a : Clause × Clause} {c : Clause}
    {x : Int} (h : x ∈ c) :
    x ∈ (K.sortAll t isPresent a c).1 ++ (K.sortAll t isPresent a c).2 ∨ K.isVoid t x := by
  induction c generalizing a with
  | nil => simp at h
  | cons y c ih =>
    rcases List.mem_cons.1 h with rfl | h
    · by_cases hv : K.isVoid t x
      · exact Or.inr hv
      · refine Or.inl (mem_sortAll_of_mem (a := K.sort t isPresent a x) (c := c) ?_)
        unfold sort
        rw [if_neg hv]
        split <;> simp
    · exact ih (a := K.sort t isPresent a y) h

/-- Sorting the literals of a clause resolves it with clauses that are known. -/
theorem entails_sortAll (hK : ∀ d ∈ K.clauses, Entails cs d.toList) {t : Trail}
    {isPresent : Int → Bool} {c : Clause} (h : Entails cs c) :
    Entails cs ((K.sortAll t isPresent ([], []) c).1 ++ (K.sortAll t isPresent ([], []) c).2) :=
  h.drop fun _ hx =>
    (mem_sortAll hx).imp_right fun hv _ _ hm hs => not_mem_of_isVoid hK hv hm hs

/-- Whatever the trail says, what comes of replacing literals follows. -/
theorem entails_trace (hK : ∀ d ∈ K.clauses, Entails cs d.toList) {t : Trail}
    {isPresent : Int → Bool} {isDone : Clause → Bool} {ls replaced : List Int}
    {acc : Clause × Clause} (h : Entails cs (acc.1 ++ acc.2)) :
    Entails cs ((K.trace t isPresent isDone ls acc replaced).1.1 ++
      (K.trace t isPresent isDone ls acc replaced).1.2) := by
  induction ls generalizing acc replaced with
  | nil => exact h
  | cons l older ih =>
    rw [trace]
    split
    · exact h
    · split
      · split
        · exact ih h
        · rename_i i _
          split
          · rename_i hi
            apply ih
            intro k m hm hs
            obtain ⟨x, hx, hxm⟩ := h k m hm hs
            by_cases hxl : x = -l
            · obtain ⟨y, hy, hym⟩ := hK _ (K.clause_mem hi) k m hm hs
              have hyl : y ≠ l := by
                rintro rfl
                exact hm.neg_not_mem hym (hxl ▸ hxm)
              refine ⟨y, (mem_sortAll (List.mem_filter.2 ⟨hy, ?_⟩)).resolve_right fun hv => ?_, hym⟩
              · simpa using hyl
              exact not_mem_of_isVoid hK hv hm hs hym
            · refine ⟨x, mem_sortAll_of_mem ?_, hxm⟩
              rw [List.mem_append] at hx ⊢
              exact hx.imp_left (List.mem_erase_of_ne hxl).2
          · exact h
      · exact ih h

/-- Whatever the trail says, what is left of a clause when literals are taken out follows. -/
theorem entails_shorten (hK : ∀ d ∈ K.clauses, Entails cs d.toList) {t : Trail} {ls : List Int}
    {c : Clause} (h : Entails cs c) : Entails cs (K.shorten t ls c) := by
  induction ls generalizing c with
  | nil => exact h
  | cons l ls ih =>
    rw [shorten]
    split
    · exact ih h
    · rename_i i _
      split
      · rename_i hi
        apply ih
        intro k m hm hs
        obtain ⟨x, hx, hxm⟩ := h k m hm hs
        by_cases hxl : x = l
        · subst hxl
          obtain ⟨y, hy, hym⟩ := hK _ (K.clause_mem hi.1) k m hm hs
          have hi := Array.all_eq_true'.1 hi.2 y (by simpa using hy)
          simp only [Bool.or_eq_true, beq_iff_eq, List.contains_eq_mem, decide_eq_true_eq] at hi
          rcases hi with (rfl | hv) | hc
          · exact absurd hym (hm.neg_not_mem hxm)
          · exact absurd hym (not_mem_of_isVoid hK hv hm hs)
          · exact ⟨y, hc, hym⟩
        · exact ⟨x, (List.mem_erase_of_ne hxl).2 hx, hxm⟩
      · exact ih h

/-- The lesson from a clause follows. -/
theorem entails_lesson (hK : ∀ d ∈ K.clauses, Entails cs d.toList) {t : Trail} {c : Clause}
    (h : Entails cs c) : Entails cs (K.lesson t c).1 :=
  entails_shorten hK (entails_trace hK (entails_sortAll hK h))

/-- So does the clause of the decisions behind it. -/
theorem entails_decisions (hK : ∀ d ∈ K.clauses, Entails cs d.toList) {t : Trail} {c : Clause}
    (h : Entails cs c) : Entails cs (K.decisions t c) :=
  entails_trace hK (entails_sortAll hK h)

end Knowledge

end Dialectic.Sat
