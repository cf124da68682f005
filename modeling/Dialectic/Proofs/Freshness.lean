import Dialectic.Proofs.Outcome
import Dialectic.Sat.Draft
import Mathlib.Data.List.Induction

/-!
# Fresh variables

Formulas are made of clauses, extended by clauses, copied, and asked for variables, in any order.
The counter of a formula never goes down, and it is not below any variable that was handed out, nor
below the clauses that the formula was made or copied with (`Supply.IsSound`). A clause that is
added leaves the counter where it is, however: its variables may be ahead of the counter, and these
are handed out later on. Main statement: new variables differ from each other and from all that were
handed out, and they occur in clauses exactly if they came in ahead of the counter
(`Supply.newVariables_fresh`).
-/

namespace Dialectic.Sat

variable {f g : Formula} {c : Clause} {n : Nat} {lits : List Json} {v : Int}

/-! ## New variables -/

/-- New variables are handed out unless there are too many of them for a list. -/
theorem newVariables_settled (f : Formula) (n : Int) :
    (AnyFormula.settled f).newVariables (.int n) =
      (checkCount n).map fun _ => ((f.newVariables n).1, .settled (f.newVariables n).2) := by
  show (checkCount n >>= fun _ => _) = _
  cases checkCount n <;> rfl

/-- Fresh variables are those that follow the counter. -/
theorem mem_newVariables : v ∈ (f.newVariables n).1 ↔ f.top < v ∧ v ≤ f.top + n := by
  simp only [Formula.newVariables, List.mem_map, List.mem_range, Int.toNat_natCast]
  constructor
  · rintro ⟨i, hi, rfl⟩
    omega
  · rintro ⟨hlt, hle⟩
    exact ⟨(v - f.top - 1).toNat, by omega, by omega⟩

/-- They differ from each other. -/
theorem nodup_newVariables (f : Formula) (n : Nat) : (f.newVariables n).1.Nodup := by
  rw [Formula.newVariables, Int.toNat_natCast]
  apply List.Pairwise.map _ _ List.nodup_range
  intro i j hne heq
  omega

/-- There are as many as were asked for. -/
theorem length_newVariables (f : Formula) (n : Nat) : (f.newVariables n).1.length = n := by
  simp [Formula.newVariables]

/-! ## Clauses -/

/-- Whether some values stand for a clause that a formula takes. -/
structure IsClause (lits : List Json) (c : Clause) : Prop where
  /-- The values stand for the literals. -/
  mapM_eq : lits.mapM Json.toInteger = .ok c
  /-- There is one. -/
  ne_nil : c ≠ []
  /-- None is zero. -/
  zero_not_mem : 0 ∉ c

/-- A formula takes values that stand for a clause as one more clause, and no other values. -/
theorem addValues_eq_ok_iff :
    f.addValues lits = .ok g ↔ ∃ c, IsClause lits c ∧ g = f.pushAll [c] := by
  rw [Formula.addValues, bind_eq_ok_iff]
  constructor
  · rintro ⟨c, hc, hadd⟩
    obtain ⟨hne, hzero, rfl⟩ := Formula.addClause_eq_ok_iff.1 (mapError_eq_ok_iff.1 hadd)
    exact ⟨c, ⟨mapError_eq_ok_iff.1 hc, hne, hzero⟩, rfl⟩
  · rintro ⟨c, hc, rfl⟩
    refine ⟨c, mapError_eq_ok_iff.2 hc.mapM_eq, mapError_eq_ok_iff.2 ?_⟩
    exact Formula.addClause_eq_ok_iff.2 ⟨hc.ne_nil, hc.zero_not_mem, rfl⟩

/-- Whether a variable occurs in a clause, negated or not. -/
def Clause.Mentions (c : Clause) (v : Int) : Prop := v ∈ c ∨ -v ∈ c

/-- The variables of a clause that are ahead of a counter. -/
def Clause.ahead (top : Int) (c : Clause) : List Int :=
  (c.map fun l => (l.natAbs : Int)).filter (top < ·)

/-- These are the variables of the clause beyond the counter. -/
theorem Clause.mem_ahead {top : Int} :
    v ∈ c.ahead top ↔ (∃ l ∈ c, (l.natAbs : Int) = v) ∧ top < v := by
  simp [Clause.ahead]

/-- A clause has the variables of its literals. -/
theorem Clause.mentions_natAbs {l : Int} (h : l ∈ c) : c.Mentions l.natAbs := by
  rcases Int.natAbs_eq l with hl | hl
  · left
    rwa [← hl]
  · right
    rwa [← hl]

/-! ## Formulas with their past -/

/-- A formula with what is remembered of its past. -/
structure Supply where
  /-- The formula. -/
  formula : Formula
  /-- The variables that it has handed out, and those that the formula it is a copy of had handed
  out before. -/
  handed : List Int
  /-- The variables that came in with clauses when they were ahead of the counter, since the formula
  was made. -/
  ahead : List Int

/-- What is done with formulas, which are kept by place. -/
inductive SupplyStep where
  /-- A formula of some clauses is made, with the counter at the given number or at the largest
  variable. -/
  | make (clauses : List Clause) (top : Int)
  /-- A formula is asked for some variables. -/
  | newVariables (place n : Nat)
  /-- A clause of any values is added to a formula. -/
  | addClause (place : Nat) (lits : List Json)
  /-- A formula is copied. -/
  | copy (place : Nat)

namespace Supply

/-- A formula that is made of some clauses. -/
def make (clauses : List Clause) (top : Int) : Supply := ⟨.ofClauses clauses top, [], []⟩

/-- Hands out variables, if there are not too many of them. -/
def newVariables (s : Supply) (n : Nat) : Supply :=
  match (AnyFormula.settled s.formula).newVariables (.int n) with
  | .ok (fresh, .settled f) => { s with formula := f, handed := s.handed ++ fresh }
  | _ => s

/-- Adds a clause, if the formula takes it. -/
def addClause (s : Supply) (lits : List Json) : Supply :=
  match s.formula.addValues lits with
  | .ok f =>
    { s with
      formula := f
      ahead := s.ahead ++ (f.clauses.drop s.formula.size).flatMap (Clause.ahead s.formula.top) }
  | .error _ => s

/-- A copy, whose counter is not below any clause. -/
def copy (s : Supply) : Supply := { s with formula := s.formula.copy, ahead := [] }

/-- All formulas after one step. -/
def step (ss : List Supply) : SupplyStep → List Supply
  | .make clauses top => ss ++ [.make clauses top]
  | .newVariables place n => ss.modify place (·.newVariables n)
  | .addClause place lits => ss.modify place (·.addClause lits)
  | .copy place => ss ++ (ss[place]?.map Supply.copy).toList

/-- All formulas after some steps, where there were none before. -/
def run (steps : List SupplyStep) : List Supply := steps.foldl step []

variable {s : Supply} {ss : List Supply}

/-- Variables are handed out, or nothing happens. -/
theorem newVariables_cases (s : Supply) (n : Nat) : s.newVariables n = s ∨
    s.newVariables n =
      { s with formula := (s.formula.newVariables n).2,
               handed := s.handed ++ (s.formula.newVariables n).1 } := by
  rw [newVariables, newVariables_settled]
  cases checkCount n with
  | error e => exact .inl rfl
  | ok u => exact .inr rfl

/-- A clause is added, or nothing happens. -/
theorem addClause_cases (s : Supply) (lits : List Json) : s.addClause lits = s ∨
    ∃ c, s.addClause lits =
      { s with formula := s.formula.pushAll [c],
               ahead := s.ahead ++ Clause.ahead s.formula.top c } := by
  rw [addClause]
  cases hadd : s.formula.addValues lits with
  | error e => exact .inl rfl
  | ok f =>
    obtain ⟨c, -, rfl⟩ := addValues_eq_ok_iff.1 hadd
    refine .inr ⟨c, ?_⟩
    simp [Formula.size]

/-! ## What the counter is above -/

/-- What always holds of a formula and its past. -/
structure IsSound (s : Supply) : Prop where
  /-- The counter is no negative number. -/
  top_nonneg : 0 ≤ s.formula.top
  /-- What was handed out is not above the counter. -/
  le_top_of_handed : ∀ v ∈ s.handed, v ≤ s.formula.top
  /-- A variable in a clause is not above the counter, unless it came in ahead of it. -/
  le_top_or_ahead : ∀ c ∈ s.formula.clauses,
    ∀ l ∈ c, (l.natAbs : Int) ≤ s.formula.top ∨ (l.natAbs : Int) ∈ s.ahead
  /-- What came in ahead of the counter is in a clause. -/
  mentions_of_ahead : ∀ v ∈ s.ahead, ∃ c ∈ s.formula.clauses, c.Mentions v

/-- The counter of a formula of given clauses is past all their variables. -/
theorem le_top_ofClauses {clauses : List Clause} {top l : Int} (hc : c ∈ clauses) (hl : l ∈ c) :
    (l.natAbs : Int) ≤ (Formula.ofClauses clauses top).top := by
  have hle := natAbs_le_maxVar hc hl
  have htop : (Formula.ofClauses clauses top).top = max top (maxVar clauses) := rfl
  omega

/-- A formula that has just been made has no past, and its counter is above its clauses. -/
theorem isSound_make (clauses : List Clause) (top : Int) : (make clauses top).IsSound := by
  refine ⟨?_, ?_, ?_, ?_⟩
  · show 0 ≤ max top (maxVar clauses : Int)
    omega
  · intro v hv
    cases hv
  · intro c hc l hl
    exact .inl (le_top_ofClauses hc hl)
  · intro v hv
    cases hv

/-- New variables come from above the counter, which then is above them too. -/
theorem IsSound.newVariables (h : s.IsSound) (n : Nat) : (s.newVariables n).IsSound := by
  rcases s.newVariables_cases n with heq | heq <;> rw [heq]
  · exact h
  · have hnonneg := h.top_nonneg
    refine ⟨?_, ?_, ?_, h.mentions_of_ahead⟩
    · rw [Formula.top_newVariables]
      omega
    · intro v hv
      rw [Formula.top_newVariables]
      rcases List.mem_append.1 hv with hv | hv
      · have := h.le_top_of_handed v hv
        omega
      · exact (mem_newVariables.1 hv).2
    · intro c hc l hl
      rw [Formula.top_newVariables]
      rcases h.le_top_or_ahead c hc l hl with hle | hahead
      · left
        omega
      · exact .inr hahead

/-- A clause does not move the counter: those of its variables that are above it come in ahead. -/
theorem IsSound.addClause (h : s.IsSound) (lits : List Json) : (s.addClause lits).IsSound := by
  rcases s.addClause_cases lits with heq | ⟨d, heq⟩ <;> rw [heq]
  · exact h
  · refine ⟨h.top_nonneg, h.le_top_of_handed, ?_, ?_⟩
    · intro c hc l hl
      rw [Formula.clauses_pushAll, List.mem_append, List.mem_singleton] at hc
      rw [Formula.top_pushAll, List.mem_append]
      rcases hc with hc | rfl
      · rcases h.le_top_or_ahead c hc l hl with hle | hahead
        · exact .inl hle
        · exact .inr (.inl hahead)
      · -- A literal of the new clause is ahead of the counter, or it is not.
        by_cases hle : (l.natAbs : Int) ≤ s.formula.top
        · exact .inl hle
        · exact .inr (.inr (Clause.mem_ahead.2 ⟨⟨l, hl, rfl⟩, Int.not_le.1 hle⟩))
    · intro v hv
      rw [Formula.clauses_pushAll]
      rcases List.mem_append.1 hv with hv | hv
      · obtain ⟨c, hc, hmentions⟩ := h.mentions_of_ahead v hv
        exact ⟨c, List.mem_append_left _ hc, hmentions⟩
      · obtain ⟨⟨l, hl, rfl⟩, -⟩ := Clause.mem_ahead.1 hv
        exact ⟨d, List.mem_append_right _ (List.mem_singleton_self d), Clause.mentions_natAbs hl⟩

/-- The counter of a copy is above all clauses, so nothing is ahead of it. -/
theorem IsSound.copy (h : s.IsSound) : s.copy.IsSound := by
  have htop : s.copy.formula.top = max s.formula.top (maxVar s.formula.clauses) := rfl
  have hnonneg := h.top_nonneg
  refine ⟨?_, ?_, ?_, ?_⟩
  · omega
  · intro v hv
    have := h.le_top_of_handed v hv
    omega
  · intro c hc l hl
    exact .inl (le_top_ofClauses hc hl)
  · intro v hv
    cases hv

/-- A change that keeps this of one formula keeps it of all, at whatever place it is made. -/
theorem isSound_modify {change : Supply → Supply}
    (hchange : ∀ s : Supply, s.IsSound → (change s).IsSound) (h : ∀ s ∈ ss, s.IsSound)
    (place : Nat) : ∀ s ∈ ss.modify place change, s.IsSound := by
  intro s hs
  obtain ⟨i, hi, rfl⟩ := List.mem_iff_getElem.1 hs
  rw [List.getElem_modify]
  rw [List.length_modify] at hi
  have hat := h ss[i] (List.getElem_mem hi)
  split
  · exact hchange _ hat
  · exact hat

/-- One step keeps what holds of all formulas. -/
theorem isSound_step (h : ∀ s ∈ ss, s.IsSound) (a : SupplyStep) : ∀ s ∈ step ss a, s.IsSound := by
  cases a with
  | make clauses top =>
    rw [step, List.forall_mem_append, List.forall_mem_singleton]
    exact ⟨h, isSound_make clauses top⟩
  | newVariables place n => exact isSound_modify (fun s hs => hs.newVariables n) h place
  | addClause place lits => exact isSound_modify (fun s hs => hs.addClause lits) h place
  | copy place =>
    rw [step, List.forall_mem_append]
    refine ⟨h, ?_⟩
    intro t ht
    rw [Option.mem_toList, Option.map_eq_some_iff] at ht
    obtain ⟨s, hs, rfl⟩ := ht
    exact (h s (List.mem_of_getElem? hs)).copy

/-- It holds of all formulas after any steps. -/
theorem isSound_run (steps : List SupplyStep) : ∀ s ∈ run steps, s.IsSound := by
  induction steps using List.reverseRecOn with
  | nil => simp [run]
  | append_singleton steps a ih =>
    rw [run, List.foldl_append]
    exact isSound_step ih a

/-! ## What is handed out -/

/-- **New variables.** However formulas were made, extended, copied and asked for variables before:
the variables that one of them hands out differ from each other, and from those that it, or what it
is a copy of before the copy, has handed out. They occur in a clause of the formula exactly if they
came in with a clause when they were ahead of the counter, and the formula is no copy from after
that. So they occur in none if all clauses were added over variables that were handed out. -/
theorem newVariables_fresh {steps : List SupplyStep} {place : Nat}
    (hs : (run steps)[place]? = some s) (n : Nat) :
    ∃ fresh f, (AnyFormula.settled s.formula).newVariables (.int n) =
        (checkCount n).map (fun _ => (fresh, .settled f)) ∧
      fresh.length = n ∧ fresh.Nodup ∧ (∀ v ∈ fresh, v ∉ s.handed) ∧
      ∀ v ∈ fresh, (∃ c ∈ s.formula.clauses, c.Mentions v) ↔ v ∈ s.ahead := by
  have h := isSound_run steps s (List.mem_of_getElem? hs)
  refine ⟨_, _, newVariables_settled s.formula n, length_newVariables _ _,
    nodup_newVariables _ _, ?_, ?_⟩
  · intro v hv hhanded
    have hle := h.le_top_of_handed v hhanded
    have hlt := (mem_newVariables.1 hv).1
    omega
  · intro v hv
    have hlt := (mem_newVariables.1 hv).1
    have hnonneg := h.top_nonneg
    constructor
    · rintro ⟨c, hc, hmentions⟩
      have habs : ∀ l ∈ c, (l.natAbs : Int) = v → v ∈ s.ahead := by
        rintro l hl rfl
        rcases h.le_top_or_ahead c hc l hl with hle | hahead
        · omega
        · exact hahead
      rcases hmentions with hl | hl
      · exact habs _ hl (by omega)
      · exact habs _ hl (by omega)
    · exact h.mentions_of_ahead v

/-- A formula that was made with the counter below a clause is asked for two variables, then a
clause is added over one of these and one that is ahead, and then it is copied; the formula and the
copy are asked for four variables. -/
theorem newVariables_fresh_ahead :
    (∃ fresh f, (AnyFormula.settled ⟨[[3, -1], [-9, 4]], 5, 9⟩).newVariables (.int 4) =
        .ok (fresh, .settled f) ∧
      fresh.length = 4 ∧ fresh.Nodup ∧ (∀ v ∈ fresh, v ∉ [4, 5]) ∧
      ∀ v ∈ fresh, (∃ c ∈ [[3, -1], [-9, 4]], Clause.Mentions c v) ↔ v ∈ [9]) ∧
    ∃ fresh f, (AnyFormula.settled ⟨[[3, -1], [-9, 4]], 9, 9⟩).newVariables (.int 4) =
        .ok (fresh, .settled f) ∧
      fresh.length = 4 ∧ fresh.Nodup ∧ (∀ v ∈ fresh, v ∉ [4, 5]) ∧
      ∀ v ∈ fresh, (∃ c ∈ [[3, -1], [-9, 4]], Clause.Mentions c v) ↔ v ∈ ([] : List Int) := by
  have hrun : run [.make [[3, -1]] 1, .newVariables 0 2,
      .addClause 0 [.str "-9", .int 4], .copy 0] =
      [⟨⟨[[3, -1], [-9, 4]], 5, 9⟩, [4, 5], [9]⟩, ⟨⟨[[3, -1], [-9, 4]], 9, 9⟩, [4, 5], []⟩] := by
    rfl
  have hfirst := congrArg (·[0]?) hrun
  have hcopy := congrArg (·[1]?) hrun
  exact ⟨newVariables_fresh hfirst 4, newVariables_fresh hcopy 4⟩

/-- The variable of a clause that was added to an empty formula is handed out as a new one. -/
theorem newVariables_not_fresh :
    run [.make [] 0, .addClause 0 [.int 1]] = [⟨⟨[[1]], 0, 1⟩, [], [1]⟩] ∧
      (AnyFormula.settled ⟨[[1]], 0, 1⟩).newVariables (.int 1) = .ok ([1], .settled ⟨[[1]], 1, 1⟩) ∧
      Clause.Mentions [1] 1 :=
  ⟨rfl, rfl, .inl (List.mem_singleton_self 1)⟩

end Supply

end Dialectic.Sat
