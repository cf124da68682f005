import Dialectic.Proofs.Freshness
import Dialectic.Sat.Bench

/-!
# Formulas that are alike

Two formulas are alike if they have the same clauses and the same counter (`Formula.Alike`),
whatever they remember as their largest number. That number has no influence on anything that a
formula hands out: what is done with formulas that are alike has the same outcome, and they are
alike afterwards (`Formula.Alike.perform`, `Formula.Alike.run`). A copy is alike exactly if the
counter is not below any variable that occurs (`Formula.alike_copy_iff`). This is so as long as
clauses are added over variables that were handed out (`Formula.IsGrown.isCovered`).
-/

namespace Dialectic.Sat

variable {ε ε' α β : Type}

/-! ## What is done with a formula -/

/-- What is done with a formula. -/
inductive FormulaStep where
  /-- It is asked for some variables. -/
  | newVariables (n : Json)
  /-- It is asked for the variables of the statuses of some arguments. -/
  | newLabels (n : Json)
  /-- A clause of any values is added to it. -/
  | addClause (lits : List Json)

namespace AnyFormula

/-- The variables that a step hands out, list by list, and the formula after it. -/
def perform (f : AnyFormula) : FormulaStep → Except BenchError (List (List Int) × AnyFormula)
  | .newVariables n => ((f.newVariables n).map fun r => ([r.1], r.2)).mapError .allocation
  | .newLabels n =>
    ((LabelVariables.allocateAny f n).map fun r =>
      ([r.1.inn, r.1.out, r.1.und], r.2)).mapError .allocation
  | .addClause lits => ((f.addValues lits).map fun g => ([], g)).mapError .session

/-- The formula after a step; one that fails leaves it as it is. -/
def step (f : AnyFormula) (a : FormulaStep) : AnyFormula :=
  match f.perform a with
  | .ok r => r.2
  | .error _ => f

/-- The formula after some steps. -/
def run (f : AnyFormula) (steps : List FormulaStep) : AnyFormula := steps.foldl step f

/-- What some steps hand out, one after the other, or why they fail. -/
def handles (f : AnyFormula) : List FormulaStep → List (Except BenchError (List (List Int)))
  | [] => []
  | a :: steps => (f.perform a).map (·.1) :: (f.step a).handles steps

theorem run_cons (f : AnyFormula) (a : FormulaStep) (steps : List FormulaStep) :
    f.run (a :: steps) = (f.step a).run steps := rfl

theorem run_append (f : AnyFormula) (as bs : List FormulaStep) :
    f.run (as ++ bs) = (f.run as).run bs :=
  List.foldl_append

/-- A step that succeeds leads to its result. -/
theorem step_of_perform_eq_ok {f g : AnyFormula} {a : FormulaStep} {r : List (List Int)}
    (h : f.perform a = .ok (r, g)) : f.step a = g := by
  rw [step, h]

/-- A step that fails changes nothing. -/
theorem step_of_perform_eq_error {f : AnyFormula} {a : FormulaStep} {e : BenchError}
    (h : f.perform a = .error e) : f.step a = f := by
  rw [step, h]

end AnyFormula

/-! ## Likeness -/

/-- Whether two formulas have the same clauses and the same counter. -/
structure Formula.Alike (f g : Formula) : Prop where
  /-- They have the same clauses, in the same order. -/
  clauses_eq : f.clauses = g.clauses
  /-- They hand out the same variables next. -/
  top_eq : f.top = g.top

/-- Whether two outcomes are the same, but for the formulas in them, which are alike. -/
inductive AreAlike : Except ε (α × AnyFormula) → Except ε (α × AnyFormula) → Prop where
  /-- Both are the same failure. -/
  | error (e : ε) : AreAlike (.error e) (.error e)
  /-- Both are the same result. -/
  | ok (a : α) {f g : Formula} (h : f.Alike g) :
      AreAlike (.ok (a, .settled f)) (.ok (a, .settled g))

namespace AreAlike

variable {x y : Except ε (α × AnyFormula)}

/-- Steps that go on alike from formulas that are alike come to outcomes that are alike. -/
theorem bind {k l : α × AnyFormula → Except ε (β × AnyFormula)} (h : AreAlike x y)
    (hkl : ∀ (a : α) {f g : Formula}, f.Alike g →
      AreAlike (k (a, .settled f)) (l (a, .settled g))) :
    AreAlike (x >>= k) (y >>= l) := by
  cases h with
  | error e => exact .error e
  | ok a hfg => exact hkl a hfg

theorem map (k : α → β) (h : AreAlike x y) :
    AreAlike (x.map fun r => (k r.1, r.2)) (y.map fun r => (k r.1, r.2)) := by
  cases h with
  | error e => exact .error e
  | ok a hfg => exact .ok (k a) hfg

theorem mapError (k : ε → ε') (h : AreAlike x y) : AreAlike (x.mapError k) (y.mapError k) := by
  cases h with
  | error e => exact .error (k e)
  | ok a hfg => exact .ok a hfg

end AreAlike

/-! ## Values in place of integers -/

theorem Draft.mapM_int?_map (c : Clause) : (c.map Json.int).mapM Draft.int? = some c := by
  induction c with
  | nil => rfl
  | cons l c ih =>
    rw [List.map_cons, List.mapM_cons, ih]
    rfl

theorem Draft.mapM_mapM_int?_map (cs : List Clause) :
    (cs.map (·.map Json.int)).mapM (·.mapM Draft.int?) = some cs := by
  induction cs with
  | nil => rfl
  | cons c cs ih =>
    rw [List.map_cons, List.mapM_cons, Draft.mapM_int?_map, ih]
    rfl

/-- A draft whose numbers are integers is a formula. -/
theorem AnyFormula.ofDraft_int (cs : List Clause) (top varCount : Int) :
    ofDraft ⟨cs.map (·.map .int), .int top, .int varCount⟩ =
      .settled ⟨cs, top, varCount.toNat⟩ := by
  have hformula : Draft.formula? ⟨cs.map (·.map .int), .int top, .int varCount⟩ =
      some ⟨cs, top, varCount.toNat⟩ := by
    rw [Draft.formula?, Draft.mapM_mapM_int?_map]
    rfl
  rw [ofDraft, hformula]

/-- Of two integers the greater is an integer. -/
theorem Json.exists_greater_int (m n : Int) : ∃ k, (Json.int m).greater (.int n) = .int k := by
  rw [Json.greater]
  split
  · exact ⟨n, rfl⟩
  · exact ⟨m, rfl⟩

/-- A truth value is a number of variables as well. -/
theorem newVariables_settled_bool (f : Formula) (b : Bool) : ∃ varCount : Nat,
    (AnyFormula.settled f).newVariables (.bool b) =
      .ok ((f.newVariables (if b then 1 else 0)).1,
        .settled ⟨f.clauses, f.top + if b then 1 else 0, varCount⟩) := by
  obtain ⟨k, hk⟩ := Json.exists_greater_int f.varCount (f.top + if b then 1 else 0)
  refine ⟨k.toNat, ?_⟩
  have hcount : checkCount (if b then 1 else 0) = .ok () := checkCount_of_lt (by cases b <;> decide)
  rw [← AnyFormula.ofDraft_int, ← hk]
  show Except.map _ (checkCount (if b then 1 else 0) >>= _) = _
  rw [hcount]
  rfl

namespace Formula

variable {f g : Formula}

/-! ## What is done with formulas that are alike -/

namespace Alike

/-- Formulas that are alike hand out the same variables and stay alike. -/
theorem newVariables_int (h : f.Alike g) (n : Int) :
    (f.newVariables n).1 = (g.newVariables n).1 ∧
      (f.newVariables n).2.Alike (g.newVariables n).2 := by
  refine ⟨?_, h.clauses_eq, ?_⟩
  · rw [newVariables, newVariables, h.top_eq]
  · rw [top_newVariables, top_newVariables, h.top_eq]

/-- They stay alike when the same clauses are added. -/
theorem pushAll (h : f.Alike g) (cs : List Clause) : (f.pushAll cs).Alike (g.pushAll cs) := by
  refine ⟨?_, h.top_eq⟩
  rw [clauses_pushAll, clauses_pushAll, h.clauses_eq]

/-- They fail alike where no variables can be handed out. -/
theorem newVariables (h : f.Alike g) (n : Json) :
    AreAlike ((AnyFormula.settled f).newVariables n) ((AnyFormula.settled g).newVariables n) := by
  cases n with
  | int n =>
    obtain ⟨hfresh, hafter⟩ := h.newVariables_int n
    rw [newVariables_settled, newVariables_settled, hfresh]
    cases checkCount n with
    | error e => exact .error e
    | ok u => exact .ok _ hafter
  | bool b =>
    obtain ⟨j, hj⟩ := newVariables_settled_bool f b
    obtain ⟨k, hk⟩ := newVariables_settled_bool g b
    rw [hj, hk, (h.newVariables_int _).1, h.top_eq]
    exact .ok _ ⟨h.clauses_eq, rfl⟩
  | float x =>
    -- Only the counter decides what is said against a number that is no integer.
    have herror : ∀ f : Formula, (AnyFormula.settled f).newVariables (.float x) =
        .error (if !(Binary64.ofInt f.top).isFinite then .beyondFloats
          else .misuse (.counting "float")) := by
      intro f
      show Except.map _ (if (!(Binary64.ofInt f.top).isFinite) = true then _ else _) = _
      split <;> rfl
    rw [herror, herror, h.top_eq]
    exact .error _
  | _ => exact .error _

/-- They take or refuse the same values. -/
theorem addValues (h : f.Alike g) (lits : List Json) :
    AreAlike (((AnyFormula.settled f).addValues lits).map fun k => (([] : List (List Int)), k))
      (((AnyFormula.settled g).addValues lits).map fun k => ([], k)) := by
  show AreAlike (((f.addValues lits).map AnyFormula.settled).map _)
      (((g.addValues lits).map AnyFormula.settled).map _)
  rw [Formula.addValues, Formula.addValues]
  cases (lits.mapM Json.toInteger).mapError SessionError.literal with
  | error e => exact .error e
  | ok c =>
    show AreAlike ((((f.addClause c).mapError SessionError.clause).map _).map _)
      ((((g.addClause c).mapError SessionError.clause).map _).map _)
    rw [Formula.addClause, Formula.addClause]
    split
    · exact .error _
    · split
      · exact .error _
      · exact .ok _ (h.pushAll [c])

/-- **Formulas that are alike.** What is done with them has the same outcome. -/
theorem perform (h : f.Alike g) (a : FormulaStep) :
    AreAlike ((AnyFormula.settled f).perform a) ((AnyFormula.settled g).perform a) := by
  cases a with
  | newVariables n =>
    exact ((h.newVariables n).map fun fresh => [fresh]).mapError BenchError.allocation
  | newLabels n =>
    refine AreAlike.mapError BenchError.allocation
      (AreAlike.map (fun v : LabelVariables => [v.inn, v.out, v.und]) ?_)
    refine (h.newVariables n).bind fun inn _ _ h₁ => ?_
    refine (h₁.newVariables n).bind fun out _ _ h₂ => ?_
    exact (h₂.newVariables n).bind fun und _ _ h₃ => .ok _ h₃
  | addClause lits => exact (h.addValues lits).mapError BenchError.session

/-- One step hands out the same, and they are alike after it. -/
theorem step (h : f.Alike g) (a : FormulaStep) :
    ((AnyFormula.settled f).perform a).map (·.1) = ((AnyFormula.settled g).perform a).map (·.1) ∧
      ∃ f' g', (AnyFormula.settled f).step a = .settled f' ∧
        (AnyFormula.settled g).step a = .settled g' ∧ f'.Alike g' := by
  have houtcome := h.perform a
  generalize hx : (AnyFormula.settled f).perform a = x at houtcome
  generalize hy : (AnyFormula.settled g).perform a = y at houtcome
  cases houtcome with
  | error e =>
    exact ⟨rfl, f, g, AnyFormula.step_of_perform_eq_error hx,
      AnyFormula.step_of_perform_eq_error hy, h⟩
  | ok r hafter =>
    exact ⟨rfl, _, _, AnyFormula.step_of_perform_eq_ok hx,
      AnyFormula.step_of_perform_eq_ok hy, hafter⟩

/-- Some steps hand out the same, and they are alike after them. -/
theorem run (h : f.Alike g) (steps : List FormulaStep) :
    (AnyFormula.settled f).handles steps = (AnyFormula.settled g).handles steps ∧
      ∃ f' g', (AnyFormula.settled f).run steps = .settled f' ∧
        (AnyFormula.settled g).run steps = .settled g' ∧ f'.Alike g' := by
  induction steps generalizing f g with
  | nil => exact ⟨rfl, f, g, rfl, rfl, h⟩
  | cons a steps ih =>
    obtain ⟨hfirst, f', g', hf, hg, hafter⟩ := h.step a
    obtain ⟨hrest, hend⟩ := ih hafter
    rw [AnyFormula.handles, AnyFormula.handles, AnyFormula.run_cons, AnyFormula.run_cons, hf, hg,
      hfirst, hrest]
    exact ⟨rfl, hend⟩

end Alike

/-! ## Copies -/

/-- Whether the counter is not below any variable that occurs. -/
def IsCovered (f : Formula) : Prop := (maxVar f.clauses : Int) ≤ f.top

/-- **Copies.** A formula and its copy are alike exactly if the counter is not below any variable
that occurs. -/
theorem alike_copy_iff : f.Alike f.copy ↔ f.IsCovered := by
  have htop : f.copy.top = max f.top (maxVar f.clauses) := rfl
  constructor
  · intro h
    have heq := h.top_eq
    rw [IsCovered]
    omega
  · intro h
    rw [IsCovered] at h
    exact ⟨rfl, by omega⟩

/-- What comes of the empty formula when it is asked for variables and clauses are added over those
that were handed out. -/
inductive IsGrown : Formula → Prop where
  /-- The formula without clauses, of which no variable was handed out. -/
  | empty : IsGrown {}
  /-- A formula that was asked for some variables. -/
  | newVariables {f g : Formula} (hf : IsGrown f) (n : Nat) {fresh : List Int}
    (h : (AnyFormula.settled f).newVariables (.int n) = .ok (fresh, .settled g)) : IsGrown g
  /-- A formula to which a clause was added of which no variable is above the counter. -/
  | addClause {f g : Formula} (hf : IsGrown f) {lits : List Json} (h : f.addValues lits = .ok g)
    (hle : ∀ c, IsClause lits c → ∀ l ∈ c, (l.natAbs : Int) ≤ f.top) : IsGrown g

/-- The counter stays past all variables when variables are handed out. -/
theorem IsCovered.newVariables (h : f.IsCovered) {n : Nat} {fresh : List Int}
    (hg : (AnyFormula.settled f).newVariables (.int n) = .ok (fresh, .settled g)) :
    g.IsCovered := by
  rw [newVariables_settled, map_eq_ok_iff] at hg
  obtain ⟨-, -, hg⟩ := hg
  obtain rfl := AnyFormula.settled.inj (Prod.mk.inj hg).2
  rw [IsCovered] at h ⊢
  rw [clauses_newVariables, top_newVariables]
  omega

/-- It stays so when a clause over variables that were handed out is added. -/
theorem IsCovered.addClause (h : f.IsCovered) {lits : List Json} (hg : f.addValues lits = .ok g)
    (hle : ∀ c, IsClause lits c → ∀ l ∈ c, (l.natAbs : Int) ≤ f.top) : g.IsCovered := by
  obtain ⟨c, hc, rfl⟩ := addValues_eq_ok_iff.1 hg
  have hnonneg : (0 : Int) ≤ f.top := Int.le_trans (Int.natCast_nonneg _) h
  have hnew : Clause.maxVar c ≤ f.top.toNat := Clause.maxVar_le fun l hl => by
    have := hle c hc l hl
    omega
  rw [IsCovered] at h ⊢
  rw [clauses_pushAll, top_pushAll, maxVar_append, maxVar_cons, maxVar_nil]
  omega

/-- The counter of a formula that has grown is past all its variables. -/
theorem IsGrown.isCovered (h : f.IsGrown) : f.IsCovered := by
  induction h with
  | empty => exact Int.le_refl 0
  | newVariables hf n h ih => exact ih.newVariables h
  | addClause hf h hle ih => exact ih.addClause h hle

end Formula

end Dialectic.Sat
