import Dialectic.Engine

/-!
# Formulas that are changed in place

A session changes its formula in place, so here formulas are kept in a list, by place. The
labellings of all models of a formula are found in a session on a copy, which is put at a place of
its own; every clause that excludes a model goes to the solver and to that place (`Held.addClause`).
Every round leaves fewer models (`Held.length_models_lt`), so the loop ends.
-/

namespace Dialectic

open Dialectic.Sat (Clause ClauseError Formula Model Session block models)

variable {σ : Type}

/-! ## Formulas by place -/

/-- A session whose formula is the one at a place. -/
structure Held (σ : Type) where
  /-- All formulas. -/
  formulas : List Formula
  /-- The place of the formula of the session. -/
  place : Nat
  /-- The session. -/
  session : Session σ

namespace Held

/-- The session, with its formula as it now is. -/
def current (h : Held σ) : Session σ :=
  { h.session with formula := (h.formulas[h.place]?).getD h.session.formula }

/-- With another state of the session, whose formula is that at the place. -/
def update (h : Held σ) (s : Session σ) : Held σ :=
  { h with formulas := h.formulas.set h.place s.formula, session := s }

/-- Adds a clause to the solver and to the formula at the place. -/
def addClause (h : Held σ) (c : Clause) : Except ClauseError (Held σ) :=
  (h.current.addClause c).map h.update

/-- A clause with literals, none of them zero, is added. -/
theorem exists_addClause_eq (h : Held σ) {c : Clause} (hne : c ≠ []) (h₀ : 0 ∉ c) :
    ∃ f, h.addClause c = .ok (h.update ({ h.session with formula := f }.push c)) :=
  ⟨h.current.formula.pushAll [c], by
    rw [addClause, Session.addClause, Formula.addClause_eq_ok_iff.2 ⟨hne, h₀, rfl⟩]
    rfl⟩

/-- A model that is found is excluded: the clause for that is added to the solver. -/
theorem exists_exclude_eq {h : Held σ} {s : Session σ} {m : Model}
    (hs : h.session.solve = (s, .ok (some m))) (hne : m ≠ []) :
    ∃ f, ({ h with session := s } : Held σ).addClause (block m) =
      .ok (({ h with session := s } : Held σ).update ({ s with formula := f }.push (block m))) := by
  obtain ⟨-, hsolve, -, -⟩ := Session.exists_of_solve_eq hs
  have hm := h.session.solver.isTotal_of_solve (s := h.session.state) (m := m) (by rw [hsolve])
  refine exists_addClause_eq _ (by simpa [block] using hne) fun hzero => ?_
  obtain ⟨x, hx, hx₀⟩ := List.mem_map.1 hzero
  exact hm.ne_zero hx (by omega)

/-- Excluding a model that is found leaves fewer models. -/
theorem length_models_lt {h t : Held σ} {s : Session σ} {m : Model}
    (hs : h.session.solve = (s, .ok (some m)))
    (ht : ({ h with session := s } : Held σ).addClause (block m) = .ok t) (hne : m ≠ []) :
    (models t.session.given).length < (models h.session.given).length := by
  obtain ⟨-, hsolve, hsolver, -⟩ := Session.exists_of_solve_eq hs
  obtain ⟨f, hadd⟩ := exists_exclude_eq hs hne
  obtain rfl := Except.ok.inj (ht.symm.trans hadd)
  have hlt := Sat.length_models_block_lt h.session.solver hsolve
  simpa only [update, Session.push, Session.given, hsolver] using hlt

/-! ## The loop -/

/-- The labellings of the models that are left, after those that were read before, the last one
first. -/
def collect (v : LabelVariables) (h : Held σ) (before : List Labelling) :
    List Formula × Except EngineError (List Labelling) :=
  match _hs : h.session.solve with
  | (_, .error e) => (h.formulas, .error (.session e))
  | (_, .ok none) => (h.formulas, .ok before.reverse)
  | (s, .ok (some m)) =>
    match v.decode m with
    | .error e => (h.formulas, .error (.index e))
    | .ok l =>
      if m = [] then (h.formulas, .ok (l :: before).reverse)
      else
        match _ht : ({ h with session := s } : Held σ).addClause (block m) with
        | .error e => (h.formulas, .error (.clause e))
        | .ok t => collect v t (l :: before)
termination_by (models h.session.given).length
decreasing_by exact length_models_lt ‹_› ‹_› ‹_›

end Held

/-- The labellings of all models of the formula at a place, found in a session on a copy of it, and
all formulas as they are afterwards. -/
def Engine.enumerateAt (e : Engine σ) (formulas : List Formula) (place : Fin formulas.length)
    (v : LabelVariables) : List Formula × Except EngineError (List Labelling) :=
  let copy := (formulas.get place).copy
  match do (Session.openOn ((← e.solvers) 0) e.intake copy).mapError EngineError.session with
  | .error e => (formulas ++ [copy], .error e)
  | .ok s => Held.collect v ⟨formulas ++ [copy], formulas.length, s⟩ []

end Dialectic
