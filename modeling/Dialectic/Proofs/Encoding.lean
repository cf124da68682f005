import Dialectic.Proofs.Attackers
import Dialectic.Proofs.Description

/-!
# What the clauses say

Clauses encode a property of labellings if their models are exactly the descriptions of the
labellings with the property (`Encodes`). The clauses of a framework encode that a labelling is
complete (`encodes_complete`), those for stable labellings that it is stable (`encodes_stable`), and
the clause that one of some variables is true says that something outside a set of arguments is
accepted (`Describes.holds_acceptsOutside`).
-/

namespace Dialectic

open Dialectic.Sat (Clause Model)

variable {n : Nat} {m : Model} {l : Labelling}

/-! ## Encoding a property -/

/-- The models of the clauses describe exactly the labellings of `n` arguments with a property. -/
structure Encodes (cs : List Clause) (n : Nat) (P : Labelling → Prop) : Prop where
  /-- All variables of the arguments occur, and no others. -/
  maxVar_eq : Sat.maxVar cs = 3 * n
  /-- The property is one of labellings of `n` arguments. -/
  length_eq : ∀ {l}, P l → l.length = n
  /-- A model describes a labelling. -/
  describes : ∀ {m}, Sat.IsTotal (3 * n) m → Sat.satisfies m cs → ∃ l, Describes n m l
  /-- A description is a model exactly if the labelling has the property. -/
  satisfies_iff : ∀ {m l}, Describes n m l → (Sat.satisfies m cs ↔ P l)

namespace Encodes

variable {cs ds : List Clause} {P Q : Labelling → Prop}

/-- The models describe the labellings with the property. -/
theorem mem_models_iff (h : Encodes cs n P) : m ∈ Sat.models cs ↔ ∃ l, P l ∧ Describes n m l := by
  rw [Sat.mem_models, h.maxVar_eq]
  constructor
  · rintro ⟨hm, hs⟩
    obtain ⟨l, hl⟩ := h.describes hm hs
    exact ⟨l, (h.satisfies_iff hl).1 hs, hl⟩
  · rintro ⟨l, hP, hl⟩
    exact ⟨hl.total, (h.satisfies_iff hl).2 hP⟩

/-- Clauses without a model encode a property that no labelling has. -/
theorem not_of_models_eq_nil (h : Encodes cs n P) (hn : Sat.models cs = []) (l : Labelling) :
    ¬ P l := by
  intro hP
  obtain ⟨m, hm⟩ := exists_describes (h.length_eq hP)
  have := h.mem_models_iff.2 ⟨l, hP, hm⟩
  simp [hn] at this

/-- The property may be put in other words. -/
theorem congr (h : Encodes cs n P) (hPQ : ∀ l, P l ↔ Q l) : Encodes cs n Q :=
  ⟨h.maxVar_eq, fun hQ => h.length_eq ((hPQ _).2 hQ), h.describes,
    fun hl => (h.satisfies_iff hl).trans (hPQ _)⟩

/-- More clauses over the same variables narrow the property. -/
theorem append (h : Encodes cs n P) (hv : Sat.maxVar ds ≤ 3 * n)
    (hd : ∀ {m l}, Describes n m l → (Sat.satisfies m ds ↔ Q l)) :
    Encodes (cs ++ ds) n fun l => P l ∧ Q l := by
  constructor
  · rw [Sat.maxVar_append, h.maxVar_eq]
    omega
  · intro l hl
    exact h.length_eq hl.1
  · intro m hm hs
    rw [Sat.satisfies_append, Bool.and_eq_true] at hs
    exact h.describes hm hs.1
  · intro m l hl
    rw [Sat.satisfies_append, Bool.and_eq_true, h.satisfies_iff hl, hd hl]

/-- Reading the models one by one enumerates the labellings with the property. -/
theorem enumerates_decode (h : Encodes cs n P) {ms : List Model}
    (hms : Enumerates (· ∈ Sat.models cs) ms) :
    ∃ ls, ms.mapM (LabelVariables.first n).decode = .ok ls ∧ Enumerates P ls := by
  -- The labelling that is read off a model, whatever it is where nothing can be read.
  let read (m : Model) : Labelling := ((LabelVariables.first n).decode m).toOption.getD []
  have hread : ∀ {m l}, Describes n m l → read m = l := by
    intro m l hl
    simp only [read, hl.decode_eq]
    rfl
  refine ⟨ms.map read, mapM_eq_ok fun m hm => ?_, ?_⟩
  · obtain ⟨l, -, hl⟩ := h.mem_models_iff.1 ((hms.mem_iff m).1 hm)
    rw [hread hl, hl.decode_eq]
  · refine (hms.map fun m m' hm hm' hmm => ?_).congr fun l => ?_
    · obtain ⟨l, -, hl⟩ := h.mem_models_iff.1 hm
      obtain ⟨l', -, hl'⟩ := h.mem_models_iff.1 hm'
      rw [hread hl, hread hl'] at hmm
      exact hl.model_unique (hmm ▸ hl')
    · constructor
      · rintro ⟨m, hm, rfl⟩
        obtain ⟨l, hP, hl⟩ := h.mem_models_iff.1 hm
        rwa [hread hl]
      · intro hP
        obtain ⟨m, hm⟩ := exists_describes (h.length_eq hP)
        exact ⟨m, h.mem_models_iff.2 ⟨l, hP, hm⟩, hread hm⟩

end Encodes

/-! ## One status for every argument -/

/-- The three variables of an argument among `n`. -/
def cell (n i : Nat) : Cell :=
  ⟨Status.accepted.var n i, Status.rejected.var n i, Status.undecided.var n i⟩

/-- The first variables argument by argument. -/
theorem LabelVariables.cells_first (n : Nat) : (first n).cells = (List.range n).map (cell n) := by
  simp only [cells, first, Status.vars, List.zip_map', List.map_map]
  rfl

/-- In a description every argument has exactly one status. -/
theorem Describes.satisfies_exactlyOne (h : Describes n m l) {i : Nat} (hi : i < n) :
    Sat.satisfies m (cell n i).exactlyOne := by
  obtain ⟨s, hs⟩ := h.exists_status hi
  simp only [Cell.exactlyOne, cell, Sat.satisfies_cons, Clause.holds_cons, Clause.holds_nil,
    Sat.satisfies_nil, h.mem_iff i hi, h.neg_mem_iff hi, hs]
  cases s <;> rfl

/-- A total model in which every argument has exactly one status describes a labelling. -/
theorem exists_describes_of_exactlyOne (hm : Sat.IsTotal (3 * n) m)
    (h : ∀ i < n, Sat.satisfies m (cell n i).exactlyOne) : ∃ l, Describes n m l := by
  refine ⟨(List.range n).map fun i =>
    if (Status.accepted.var n i : Int) ∈ m then .accepted
    else if (Status.rejected.var n i : Int) ∈ m then .rejected
    else .undecided, hm, by simp, fun i hi s => ?_⟩
  have hneg : ∀ s : Status, -(s.var n i : Int) ∈ m ↔ (s.var n i : Int) ∉ m := by
    intro s
    have h₁ := Status.one_le_var (n := n) (i := i) (s := s)
    exact hm.neg_mem_iff (by omega) (by simpa using Status.var_le hi)
  have hs := h i hi
  simp only [Cell.exactlyOne, cell, Sat.satisfies_cons, Clause.holds_cons, Clause.holds_nil,
    Sat.satisfies_nil, hneg, Bool.or_false, Bool.and_true, Bool.and_eq_true, Bool.or_eq_true,
    decide_eq_true_iff] at hs
  rw [List.getElem?_map, List.getElem?_range hi, Option.map_some, Option.some.injEq]
  by_cases ha : (Status.accepted.var n i : Int) ∈ m <;>
    by_cases hr : (Status.rejected.var n i : Int) ∈ m <;> cases s <;> simp_all

/-! ## The status that the attackers determine -/

/-- The clauses that determine the status of an argument whose attackers are given as numbers. -/
def Cell.determinedBy (n : Nat) (c : Cell) (js : List Nat) : List Clause :=
  if js = [] then [[c.inn], [-c.out], [-c.und]]
  else (js.map fun j => [-c.inn, (Status.rejected.var n j : Int)]) ++
    ((js.map fun j => -(Status.rejected.var n j : Int)) ++ [c.inn]) ::
      ((js.map fun j => [-(Status.accepted.var n j : Int), c.out]) ++
        [(js.map fun j => (Status.accepted.var n j : Int)) ++ [-c.out]])

/-- Looking the variables of the attackers up never fails. -/
theorem Cell.determined_eq (c : Cell) {js : List Nat} (hjs : ∀ j ∈ js, j < n) :
    c.determined (Status.accepted.vars n).toArray (Status.rejected.vars n).toArray
      (js.map fun j : Nat => (j : Int)) = .ok (c.determinedBy n js) := by
  have hread : ∀ s : Status,
      (js.map fun j : Nat => (j : Int)).mapM (Index.read .tuple (s.vars n).toArray) =
      .ok (js.map fun j => (s.var n j : Int)) := by
    intro s
    rw [List.mapM_map]
    exact mapM_eq_ok fun j hj => s.read_vars (hjs j hj)
  unfold Cell.determined Cell.determinedBy
  by_cases hj : js = []
  · simp [hj]
  · rw [if_neg (by simpa using hj), if_neg hj, hread, hread]
    simp [bind, Except.bind, pure, Except.pure, Function.comp_def]

/-- **One argument.** In a description the clauses of an argument hold exactly if it is accepted
when all its attackers are rejected, and only then, and rejected when one of them is accepted, and
only then. -/
theorem Describes.satisfies_determinedBy (h : Describes n m l) {i : Nat} (hi : i < n)
    {js : List Nat} (hjs : ∀ j ∈ js, j < n) :
    Sat.satisfies m ((cell n i).determinedBy n js) ↔
      (l[i]? = some .accepted ↔ ∀ j ∈ js, l[j]? = some .rejected) ∧
        (l[i]? = some .rejected ↔ ∃ j ∈ js, l[j]? = some .accepted) := by
  obtain ⟨s, hs⟩ := h.exists_status hi
  unfold Cell.determinedBy
  by_cases hj : js = []
  · simp only [hj, if_true, cell, Sat.satisfies_cons, Clause.holds_cons, Clause.holds_nil,
      Sat.satisfies_nil, h.mem_iff i hi, h.neg_mem_iff hi, hs]
    cases s <;> simp
  · have h₁ : Sat.satisfies m (js.map fun j => [-(cell n i).inn, (Status.rejected.var n j : Int)]) ↔
        ∀ j ∈ js, l[i]? = some .accepted → l[j]? = some .rejected := by
      rw [Sat.satisfies_map]
      refine forall₂_congr fun j hj => ?_
      simp [cell, h.mem_iff j (hjs j hj), h.neg_mem_iff hi, imp_iff_not_or]
    have h₂ : Clause.holds m
        ((js.map fun j => -(Status.rejected.var n j : Int)) ++ [(cell n i).inn]) ↔
        ((∀ j ∈ js, l[j]? = some .rejected) → l[i]? = some .accepted) := by
      rw [Clause.holds_append, Bool.or_eq_true, Clause.holds_map, imp_iff_not_or]
      refine or_congr ?_ (by simp [cell, h.mem_iff i hi])
      push Not
      refine exists_congr fun j => and_congr_right fun hj => ?_
      rw [h.neg_mem_iff (hjs j hj)]
    have h₃ : Sat.satisfies m (js.map fun j => [-(Status.accepted.var n j : Int), (cell n i).out]) ↔
        ∀ j ∈ js, l[j]? = some .accepted → l[i]? = some .rejected := by
      rw [Sat.satisfies_map]
      refine forall₂_congr fun j hj => ?_
      simp [cell, h.mem_iff i hi, h.neg_mem_iff (hjs j hj), imp_iff_not_or]
    have h₄ : Clause.holds m
        ((js.map fun j => (Status.accepted.var n j : Int)) ++ [-(cell n i).out]) ↔
        (l[i]? = some .rejected → ∃ j ∈ js, l[j]? = some .accepted) := by
      rw [Clause.holds_append, Bool.or_eq_true, Clause.holds_map, imp_iff_not_or, or_comm]
      refine or_congr (by simp [cell, h.neg_mem_iff hi]) ?_
      refine exists_congr fun j => and_congr_right fun hj => ?_
      rw [h.mem_iff j (hjs j hj)]
    rw [if_neg hj, Sat.satisfies_append, Sat.satisfies_cons, Sat.satisfies_append,
      Sat.satisfies_cons, Sat.satisfies_nil]
    simp only [Bool.and_eq_true, h₁, h₂, h₃, h₄, and_true]
    constructor
    · rintro ⟨ha, ha', hr, hr'⟩
      exact ⟨⟨fun hi j hj => ha j hj hi, ha'⟩, hr', fun ⟨j, hj, hja⟩ => hr j hj hja⟩
    · rintro ⟨ha, hr⟩
      exact ⟨fun j hj hi => ha.1 hi j hj, ha.2, fun j hj hja => hr.2 ⟨j, hj, hja⟩, hr.1⟩

/-! ## Complete labellings -/

/-- The clauses of a framework with `n` arguments. -/
def completeClauses (n : Nat) (f : Framework) : List Clause :=
  ((List.range n).flatMap fun i => (cell n i).exactlyOne) ++
    (List.range n).flatMap fun i => (cell n i).determinedBy n (f.attackerNumbers i)

/-- Whether a clause has literals, all of them over the variables of `n` arguments. -/
def IsOver (n : Nat) (c : Clause) : Prop := c ≠ [] ∧ ∀ x ∈ c, 1 ≤ x.natAbs ∧ x.natAbs ≤ 3 * n

/-- The clauses about the status of an argument are over its variables and those of its
attackers. -/
theorem isOver_of_mem_determinedBy {i : Nat} (hi : i < n) {js : List Nat} (hjs : ∀ j ∈ js, j < n)
    {c : Clause} (hc : c ∈ (cell n i).determinedBy n js) : IsOver n c := by
  have hv : ∀ s : Status, 1 ≤ s.var n i ∧ s.var n i ≤ 3 * n :=
    fun s => ⟨Status.one_le_var, Status.var_le hi⟩
  have hw : ∀ j ∈ js, ∀ s : Status, 1 ≤ s.var n j ∧ s.var n j ≤ 3 * n := fun j hj s =>
    ⟨Status.one_le_var, Status.var_le (hjs j hj)⟩
  unfold Cell.determinedBy cell at hc
  split at hc
  · simp only [List.mem_cons, List.not_mem_nil, or_false] at hc
    rcases hc with rfl | rfl | rfl <;>
      (refine ⟨List.cons_ne_nil _ _, fun x hx => ?_⟩; rw [List.mem_singleton.1 hx]; simp [hv])
  · simp only [List.mem_append, List.mem_cons, List.mem_map, List.not_mem_nil, or_false] at hc
    rcases hc with ⟨j, hj, rfl⟩ | rfl | ⟨j, hj, rfl⟩ | rfl
    · refine ⟨List.cons_ne_nil _ _, fun x hx => ?_⟩
      simp only [List.mem_cons, List.not_mem_nil, or_false] at hx
      rcases hx with rfl | rfl <;> simp [hv, hw j hj]
    · refine ⟨by simp, fun x hx => ?_⟩
      simp only [List.mem_append, List.mem_map, List.mem_singleton] at hx
      rcases hx with ⟨j, hj, rfl⟩ | rfl
      · simp [hw j hj]
      · simp [hv]
    · refine ⟨List.cons_ne_nil _ _, fun x hx => ?_⟩
      simp only [List.mem_cons, List.not_mem_nil, or_false] at hx
      rcases hx with rfl | rfl <;> simp [hv, hw j hj]
    · refine ⟨by simp, fun x hx => ?_⟩
      simp only [List.mem_append, List.mem_map, List.mem_singleton] at hx
      rcases hx with ⟨j, hj, rfl⟩ | rfl
      · simp [hw j hj]
      · simp [hv]

/-- The clauses that give an argument exactly one status are over its own variables. -/
theorem isOver_of_mem_exactlyOne {i : Nat} (hi : i < n) {c : Clause}
    (hc : c ∈ (cell n i).exactlyOne) : IsOver n c := by
  have hv : ∀ s : Status, 1 ≤ s.var n i ∧ s.var n i ≤ 3 * n :=
    fun s => ⟨Status.one_le_var, Status.var_le hi⟩
  simp only [Cell.exactlyOne, cell, List.mem_cons, List.not_mem_nil, or_false] at hc
  rcases hc with rfl | rfl | rfl | rfl <;> refine ⟨List.cons_ne_nil _ _, fun x hx => ?_⟩ <;>
    simp only [List.mem_cons, List.not_mem_nil, or_false] at hx
  · rcases hx with rfl | rfl | rfl <;> simp [hv]
  all_goals rcases hx with rfl | rfl <;> simp [hv]

/-- Clauses over the variables of `n` arguments have no larger variable. -/
theorem maxVar_le_of_isOver {cs : List Clause} (h : ∀ c ∈ cs, IsOver n c) : Sat.maxVar cs ≤ 3 * n :=
  Sat.maxVar_le fun c hc x hx => ((h c hc).2 x hx).2

variable {f : Framework}

/-- The clauses of a framework are over the variables of its arguments. -/
theorem isOver_of_mem_completeClauses (hf : f.WellFormed) (hn : f.size = n) :
    ∀ c ∈ completeClauses n f, IsOver n c := by
  intro c hc
  rw [completeClauses, List.mem_append, List.mem_flatMap, List.mem_flatMap] at hc
  rcases hc with ⟨i, hi, hc⟩ | ⟨i, hi, hc⟩
  · exact isOver_of_mem_exactlyOne (List.mem_range.1 hi) hc
  · refine isOver_of_mem_determinedBy (List.mem_range.1 hi) (fun j hj => ?_) hc
    exact (hf.lt_of_attacks hn (hf.mem_attackerNumbers.1 hj)).1

/-- The variables of an argument occur together. -/
theorem mem_completeClauses {i : Nat} (hi : i < n) :
    [(Status.accepted.var n i : Int), Status.rejected.var n i, Status.undecided.var n i] ∈
      completeClauses n f := by
  refine List.mem_append_left _ (List.mem_flatMap.2 ⟨i, List.mem_range.2 hi, ?_⟩)
  simp [Cell.exactlyOne, cell]

/-- The largest variable of the clauses of a framework is the last one of its arguments. -/
theorem maxVar_completeClauses (hf : f.WellFormed) (hn : f.size = n) :
    Sat.maxVar (completeClauses n f) = 3 * n := by
  apply Nat.le_antisymm
  · exact maxVar_le_of_isOver (isOver_of_mem_completeClauses hf hn)
  · -- The largest variable says that the last argument is undecided.
    rcases n with _ | k
    · simp
    · have hx := Sat.natAbs_le_maxVar (mem_completeClauses (f := f) (Nat.lt_succ_self k))
        (l := Status.undecided.var (k + 1) k) (by simp)
      refine Nat.le_trans (Nat.le_of_eq ?_) hx
      simp only [Int.natAbs_natCast, Status.var, Status.block]
      omega

/-- **Complete labellings.** The clauses of a well-formed framework encode that a labelling is
complete. -/
theorem encodes_complete (hf : f.WellFormed) (hn : f.size = n) :
    Encodes (completeClauses n f) n f.IsComplete := by
  have hjs : ∀ i, ∀ j ∈ f.attackerNumbers i, j < n := fun i j hj =>
    (hf.lt_of_attacks hn (hf.mem_attackerNumbers.1 hj)).1
  constructor
  · exact maxVar_completeClauses hf hn
  · intro l hl
    have := hl.1
    omega
  · intro m hm hs
    rw [completeClauses, Sat.satisfies_append, Bool.and_eq_true, Sat.satisfies_flatMap] at hs
    exact exists_describes_of_exactlyOne hm fun i hi => hs.1 i (List.mem_range.2 hi)
  · intro m l hl
    rw [completeClauses, Sat.satisfies_append, Bool.and_eq_true, Sat.satisfies_flatMap,
      Sat.satisfies_flatMap, Framework.IsComplete, hl.length_eq]
    have h₁ : ∀ i ∈ List.range n, Sat.satisfies m (cell n i).exactlyOne := fun i hi =>
      hl.satisfies_exactlyOne (List.mem_range.1 hi)
    refine (and_iff_right h₁).trans (Iff.trans ?_ (and_iff_right hn.symm).symm)
    refine forall_congr' fun i => ?_
    rw [List.mem_range]
    refine imp_congr_right fun hi => ?_
    rw [hl.satisfies_determinedBy hi (hjs i)]
    simp only [hf.mem_attackerNumbers]

/-- The formula of a framework with `n` arguments, whose counter stands at the last variable. -/
def completeFormula (n : Nat) (f : Framework) : Sat.Formula :=
  Sat.Formula.pushAll ⟨[], 3 * n, 3 * n⟩ (completeClauses n f)

@[simp] theorem clauses_completeFormula (n : Nat) (f : Framework) :
    (completeFormula n f).clauses = completeClauses n f := rfl

/-- The formula that a framework is turned into, by the rows of its table of attackers. -/
theorem complete_eq_map (hn : f.size = n) {row : Nat → List Int}
    (hrows : f.attackerIndex = .ok ((List.range n).map row)) :
    Encoding.complete f =
      ((List.range n).mapM fun i => (cell n i).determined (Status.accepted.vars n).toArray
      (Status.rejected.vars n).toArray (row i)).map fun determined =>
        ⟨.pushAll ⟨[], 3 * n, 3 * n⟩
          (((List.range n).flatMap fun i => (cell n i).exactlyOne) ++ determined.flatten),
          .first n⟩ := by
  unfold Encoding.complete
  rw [hn, LabelVariables.allocate_natCast, hrows]
  simp only [LabelVariables.cells_first, List.zip_map', List.mapM_map, List.flatMap_map, bind,
    Except.bind]
  simp only [LabelVariables.first, Function.comp_def]
  cases (List.range n).mapM fun i => (cell n i).determined (Status.accepted.vars n).toArray
      (Status.rejected.vars n).toArray (row i) <;>
    rfl

/-- The formula that a well-formed framework is turned into is over the first variables. -/
theorem complete_eq (hf : f.WellFormed) (hn : f.size = n) :
    Encoding.complete f = .ok ⟨completeFormula n f, .first n⟩ := by
  have hd : ∀ i ∈ List.range n, (cell n i).determined (Status.accepted.vars n).toArray
      (Status.rejected.vars n).toArray (f.attackersOf i) =
        .ok ((cell n i).determinedBy n (f.attackerNumbers i)) := by
    intro i _
    rw [hf.attackersOf_eq, Cell.determined_eq _ fun j hj =>
      (hf.lt_of_attacks hn (hf.mem_attackerNumbers.1 hj)).1]
  rw [complete_eq_map hn (hf.attackerIndex_eq hn), mapM_eq_ok hd]
  rfl

/-! ## Stable labellings -/

/-- The clauses that no argument is undecided. -/
def decidedClauses (n : Nat) : List Clause := (Status.undecided.vars n).map fun u => [-u]

/-- No argument is undecided exactly if all variables that say that one is are false. -/
theorem Describes.satisfies_decidedClauses (h : Describes n m l) :
    Sat.satisfies m (decidedClauses n) ↔ .undecided ∉ l := by
  rw [decidedClauses, Status.vars, List.map_map, Sat.satisfies_map, List.mem_iff_getElem?]
  push Not
  constructor
  · intro hs i hi
    have hlt : i < n := h.length_eq ▸ (List.getElem?_eq_some_iff.1 hi).1
    have hn := hs i (List.mem_range.2 hlt)
    simp only [Function.comp, Clause.holds_cons, Clause.holds_nil, Bool.or_false,
      decide_eq_true_iff, h.neg_mem_iff hlt] at hn
    exact hn hi
  · intro hu i hi
    simpa [h.neg_mem_iff (List.mem_range.1 hi)] using hu i

/-- These clauses have no other variables. -/
theorem isOver_of_mem_decidedClauses : ∀ c ∈ decidedClauses n, IsOver n c := by
  intro c hc
  obtain ⟨u, hu, rfl⟩ := List.mem_map.1 hc
  obtain ⟨i, hi, rfl⟩ := List.mem_map.1 hu
  refine ⟨List.cons_ne_nil _ _, fun x hx => ?_⟩
  rw [List.mem_singleton.1 hx, Int.natAbs_neg, Int.natAbs_natCast]
  exact ⟨Status.one_le_var, Status.var_le (List.mem_range.1 hi)⟩

/-- **Stable labellings.** With the further clauses those of a framework encode that a labelling is
stable. -/
theorem encodes_stable (hf : f.WellFormed) (hn : f.size = n) :
    Encodes (completeClauses n f ++ decidedClauses n) n f.IsStable :=
  (encodes_complete hf hn).append (maxVar_le_of_isOver isOver_of_mem_decidedClauses) fun hl =>
    hl.satisfies_decidedClauses

/-- The formula for stable labellings has the further clauses as well. -/
theorem stable_eq (hf : f.WellFormed) (hn : f.size = n) :
    Encoding.stable f =
      .ok ⟨(completeFormula n f).pushAll (decidedClauses n), .first n⟩ := by
  rw [Encoding.stable, complete_eq hf hn]
  rfl

/-! ## Accepting something else -/

/-- The clause that an argument outside a set is accepted. -/
def acceptsOutside (n : Nat) (e : List Nat) : Clause :=
  ((List.range n).filter fun i => decide (i ∉ e)).map fun i => (Status.accepted.var n i : Int)

/-- The clause has no literals exactly if the set has all arguments. -/
theorem acceptsOutside_eq_nil_iff {e : List Nat} : acceptsOutside n e = [] ↔ ∀ i < n, i ∈ e := by
  simp [acceptsOutside]

/-- The literals are variables of the arguments. -/
theorem natAbs_of_mem_acceptsOutside {e : List Nat} {x : Int} (hx : x ∈ acceptsOutside n e) :
    1 ≤ x.natAbs ∧ x.natAbs ≤ 3 * n := by
  obtain ⟨i, hi, rfl⟩ := List.mem_map.1 hx
  rw [Int.natAbs_natCast]
  exact ⟨Status.one_le_var, Status.var_le (List.mem_range.1 (List.mem_filter.1 hi).1)⟩

/-- No literal of this clause is zero. -/
theorem zero_not_mem_acceptsOutside {e : List Nat} : 0 ∉ acceptsOutside n e := by
  intro h
  have := natAbs_of_mem_acceptsOutside h
  omega

/-- **Accepting something else.** In a description the clause holds exactly if the accepted
arguments are not all in the set. -/
theorem Describes.holds_acceptsOutside (h : Describes n m l) (e : List Nat) :
    Clause.holds m (acceptsOutside n e) ↔ ¬ l.accepted ⊆ e := by
  rw [acceptsOutside, Clause.holds_map, List.subset_def]
  push Not
  refine exists_congr fun i => ?_
  rw [List.mem_filter, List.mem_range, decide_eq_true_iff, Labelling.mem_accepted]
  constructor
  · rintro ⟨⟨hi, he⟩, hm⟩
    exact ⟨(h.mem_iff i hi _).1 hm, he⟩
  · rintro ⟨hl, he⟩
    have hi : i < n := h.length_eq ▸ (List.getElem?_eq_some_iff.1 hl).1
    exact ⟨⟨hi, he⟩, (h.mem_iff i hi _).2 hl⟩

/-- Adding the clause narrows a property to the labellings that accept something outside the set. -/
theorem Encodes.append_acceptsOutside {cs : List Clause} {P : Labelling → Prop} (h : Encodes cs n P)
    (e : List Nat) : Encodes (cs ++ [acceptsOutside n e]) n fun l => P l ∧ ¬ l.accepted ⊆ e := by
  refine h.append ?_ fun hl => ?_
  · apply Sat.maxVar_le
    intro c hc x hx
    rw [List.mem_singleton.1 hc] at hx
    exact (natAbs_of_mem_acceptsOutside hx).2
  · rw [Sat.satisfies_cons, Sat.satisfies_nil, Bool.and_true]
    exact hl.holds_acceptsOutside e

/-- The variables of what a described labelling does not accept make the clause that something else
is accepted. -/
theorem Describes.notAccepted_eq (h : Describes n m l) :
    (LabelVariables.first n).notAccepted m = acceptsOutside n l.accepted := by
  simp only [LabelVariables.notAccepted, LabelVariables.first, Status.vars, acceptsOutside,
    List.filter_map]
  congr 1
  apply List.filter_congr
  intro i hi
  simp only [Function.comp, h.mem_trueVariables (List.mem_range.1 hi),
    Labelling.mem_accepted]

/-- That something is accepted is that something outside the empty set is. -/
theorem nonEmptyClause_first (n : Nat) :
    (LabelVariables.first n).nonEmptyClause = acceptsOutside n [] := by
  simp [LabelVariables.nonEmptyClause, LabelVariables.first, Status.vars, acceptsOutside]

end Dialectic
