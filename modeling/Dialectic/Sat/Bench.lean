import Dialectic.Encoding.Values
import Dialectic.Json.Lookup

/-!
# A bench of formulas and sessions

Formulas and sessions under names, which may be any values under which something can be found. A
name stands for a formula on the bench until it is given to another one; a session keeps the formula
it was opened on, and both change that formula together.
-/

namespace Dialectic.Sat

/-- A session with the place of its formula. -/
structure Work where
  /-- The place of the formula. -/
  place : Nat
  /-- The session. -/
  session : Session Learner

/-- Formulas and sessions under names. -/
structure Bench where
  /-- All formulas, in the order in which they came. -/
  formulas : List AnyFormula := []
  /-- The names of formulas, by their place. -/
  names : List (Json × Nat) := []
  /-- The sessions by name. -/
  sessions : List (Json × Work) := []

/-- Why a step on the bench fails. -/
inductive BenchError where
  /-- A value is not of the kind that is needed. -/
  | misuse (e : Json.Misuse)
  /-- Nothing has the name. -/
  | unknownName (name : Json)
  /-- No variables can be handed out. -/
  | allocation (e : AllocationError)
  /-- A session, or the formula, fails. -/
  | session (e : SessionError)
  /-- There is no such solver. -/
  | solver (e : Intake.NameError)
  deriving Repr

namespace Bench

/-! ## Formulas -/

/-- Puts a formula on the bench and gives it a name. -/
def put (b : Bench) (name : Json) (f : AnyFormula) : Except BenchError Bench := do
  let name ← name.key.mapError .misuse
  return { b with
    formulas := b.formulas ++ [f]
    names := Json.enter b.names name b.formulas.length }

/-- The place of a formula and the formula. -/
def find (b : Bench) (name : Json) : Except BenchError (Nat × AnyFormula) := do
  let name ← name.key.mapError .misuse
  match (Json.lookup? b.names name).bind fun p => (b.formulas[p]?).map fun f => (p, f) with
  | some r => return r
  | none => throw (.unknownName name)

/-- Changes the formula at a place. -/
def set (b : Bench) (place : Nat) (f : AnyFormula) : Bench :=
  { b with formulas := b.formulas.set place f }

/-- A formula of the given clauses. -/
def new (b : Bench) (name clauses top : Json) : Except BenchError (Bench × AnyFormula) := do
  let f ← (AnyFormula.ofValues clauses top).mapError .misuse
  return (← b.put name f, f)

/-- Fresh variables of a formula. -/
def newVariables (b : Bench) (name n : Json) : Except BenchError (Bench × List Int) := do
  let (place, f) ← b.find name
  let (fresh, f) ← (f.newVariables n).mapError .allocation
  return (b.set place f, fresh)

/-- Fresh variables of a formula for the statuses of arguments. -/
def newLabels (b : Bench) (name n : Json) : Except BenchError (Bench × LabelVariables) := do
  let (place, f) ← b.find name
  let (v, f) ← (LabelVariables.allocateAny f n).mapError .allocation
  return (b.set place f, v)

/-- Adds a clause to a formula; gives the number of its clauses. -/
def add (b : Bench) (name lits : Json) : Except BenchError (Bench × Nat) := do
  let (place, f) ← b.find name
  let f ← (f.addValues (← lits.items.mapError .misuse)).mapError .session
  return (b.set place f, f.size)

/-- Puts a copy of a formula on the bench. -/
def copy (b : Bench) (name target : Json) : Except BenchError (Bench × AnyFormula) := do
  let (_, f) ← b.find name
  let f ← f.copy.mapError .misuse
  return (← b.put target f, f)

/-! ## Sessions -/

/-- Opens a session on a formula. -/
def openSession (b : Bench) (name formula solver : Json) : Except BenchError Bench := do
  let (place, f) ← b.find formula
  let intake ← (Intake.named solver).mapError .solver
  let s ← (f.openSession .learning intake).mapError .session
  let name ← name.key.mapError .misuse
  return { b with sessions := Json.enter b.sessions name ⟨place, s⟩ }

/-- A session, with its formula as it now is, and the formula. -/
def session (b : Bench) (name : Json) : Except BenchError (Work × AnyFormula) := do
  let name ← name.key.mapError .misuse
  match Json.lookup? b.sessions name with
  | none => throw (.unknownName name)
  | some w =>
    match b.formulas[w.place]? with
    | some (.settled f) =>
      return ({ w with session := { w.session with formula := f } }, .settled f)
    | some f => return (w, f)
    | none => return (w, .settled w.session.formula)

/-- Changes a session. -/
def setSession (b : Bench) (name : Json) (w : Work) : Bench :=
  { b with sessions := Json.enter b.sessions name w }

/-- Adds a clause in a session: to its formula and to its solver. If the solver fails, the formula
keeps the clause. -/
def addTo (w : Work) (f : AnyFormula) (lits : List Json) :
    Work × AnyFormula × Except SessionError Unit :=
  match f with
  | .settled _ =>
    let (s, r) := w.session.add lits
    ({ w with session := s }, .settled s.formula, r)
  | .draft d =>
    match (AnyFormula.draft d).addValues lits with
    | .error e => (w, f, .error e)
    | .ok f =>
      let (s, r) := w.session.give lits
      ({ w with session := s }, f, r)

/-- Adds a clause in a session; gives the number of clauses of its formula. -/
def sessionAdd (b : Bench) (name lits : Json) : Bench × Except BenchError Nat :=
  match b.session name, lits.items with
  | .error e, _ => (b, .error e)
  | .ok _, .error e => (b, .error (.misuse e))
  | .ok (w, f), .ok lits =>
    let (w, f, r) := addTo w f lits
    ((b.set w.place f).setSession name w, (r.map fun _ => f.size).mapError .session)

/-- Asks the solver of a session. -/
def solve (b : Bench) (name : Json) : Bench × Except BenchError (Option Model) :=
  match b.session name with
  | .error e => (b, .error e)
  | .ok (w, _) =>
    let (s, r) := w.session.solve
    (b.setSession name { w with session := s }, r.mapError .session)

/-- Closes a session. -/
def close (b : Bench) (name : Json) : Except BenchError Bench := do
  let (w, _) ← b.session name
  return b.setSession name { w with session := w.session.close }

end Bench

end Dialectic.Sat
