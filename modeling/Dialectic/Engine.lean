import Dialectic.Encoding.Values
import Dialectic.Framework.Any
import Dialectic.Preferred
import Dialectic.Sat.Enumerate
import Dialectic.Semantics.Basic

/-!
# Computing labellings

The labellings of a framework under a semantics, computed with a solver that is asked for by name.
The name is looked at when a solver is first needed.
-/

namespace Dialectic

/-! ## Errors -/

/-- Why labellings cannot be computed. -/
inductive EngineError where
  /-- An attack leaves the framework, or a model cannot be read. -/
  | index (e : IndexError)
  /-- A clause is refused. -/
  | clause (e : Sat.ClauseError)
  /-- A session fails. -/
  | session (e : Sat.SessionError)
  /-- There is no such solver. -/
  | solver (e : Sat.Intake.NameError)
  /-- A phase of the search needs a session and there is none. -/
  | noSession
  /-- A value names no semantics. -/
  | unsupported (value : Json)
  /-- A bare name is no semantics that a result could be labelled with. -/
  | bareName
  /-- The framework has a number that is too long for its fingerprint. -/
  | size (e : Integer.SizeError)
  /-- A sketch does not serve as a framework. -/
  | sketch (e : Sketch.Error)
  /-- There are too many arguments to have variables. -/
  | allocation (e : Sat.AllocationError)
  /-- A value is not of the kind that is needed. -/
  | misuse (e : Json.Misuse)
  deriving Repr

/-- What the error says. -/
def EngineError.message : EngineError → Text
  | .index e => e.message
  | .clause e => e.message
  | .session e => e.message
  | .solver e => e.message
  | .noSession => "'NoneType' object has no attribute 'add_clause'"
  | .unsupported value => "Unsupported semantics: " ++ value.display
  | .bareName => "'str' object has no attribute 'value'"
  | .size e => e.message
  | .sketch e => e.message
  | .allocation e => e.message
  | .misuse e => e.message

/-- An error in reading a model. -/
def EngineError.ofReading : ReadingError → EngineError
  | .index e => .index e
  | .misuse e => .misuse e

/-- An error of the search for preferred labellings. -/
def EngineError.ofPreferred : Preferred.Error → EngineError
  | .clause e => .clause e
  | .session e => .session e
  | .index e => .index e
  | .noSession => .noSession

/-- A framework whose arguments can have variables. -/
def AnyFramework.settleWithin (g : AnyFramework) : Except EngineError Framework := do
  (Sat.checkCount (g.size.integer?.getD 0)).mapError .allocation
  g.settle.mapError .sketch

/-! ## The engine -/

/-- Computes labellings with solvers of which `σ` is the type of states. -/
structure Engine (σ : Type) where
  /-- The solvers of the sessions that are opened, in turn, or the reason why there is none. -/
  backend : Except Sat.Intake.NameError (Nat → Sat.Solver σ)
  /-- How the solvers take clauses that do not come from a framework. -/
  intake : Sat.Intake := .whole

namespace Engine

/-- The engine that uses, in every session, the solver of the given name. -/
def named (name : Json) : Engine Sat.Learner :=
  match Sat.Intake.named name with
  | .ok intake => ⟨.ok fun _ => .learning, intake⟩
  | .error e => ⟨.error e, .whole⟩

/-- A name that is known names an engine that has solvers. -/
theorem backend_named {name : Json} (h : (Sat.Intake.named name).toOption.isSome) :
    (named name).backend = .ok fun _ => .learning := by
  unfold named
  cases hname : Sat.Intake.named name with
  | ok intake => rfl
  | error err => simp [hname, Except.toOption] at h

/-- The solvers of that engine are of some kind. -/
theorem exists_intake_named (name : Json) :
    ∃ k : Sat.Kind, (named name).intake = k.intake := by
  unfold named
  cases hname : Sat.Intake.named name with
  | ok intake => exact Sat.Intake.exists_kind_of_named hname
  | error err => exact ⟨{}, rfl⟩

variable {σ : Type}

/-- The engine that uses the given solvers, one for each session. -/
def ofSolvers (S : Nat → Sat.Solver σ) : Engine σ := ⟨.ok S, .whole⟩

/-- The solvers, where one is needed. -/
def solvers (e : Engine σ) : Except EngineError (Nat → Sat.Solver σ) := e.backend.mapError .solver

/-- The labellings of all models of the clauses of a session, each read as soon as it is found. -/
def labellingsOf (session : Sat.Session σ) (v : LabelVariables) :
    Except EngineError (List Labelling) :=
  (Sat.readModels session.solver v.decode session.state).mapError .index

/-- The labellings of all models of an encoding. -/
def labellingsOfEncoding (e : Engine σ) (encoding : Encoding) :
    Except EngineError (List Labelling) := do
  let S ← e.solvers
  labellingsOf (.start (S 0) encoding.formula.copy) encoding.vars

/-- The labellings of all models of a formula, one for every total model over the variables that
occur. -/
def enumerate (e : Engine σ) (f : Sat.Formula) (v : LabelVariables) :
    Except EngineError (List Labelling) := do
  let S ← e.solvers
  labellingsOf (← (Sat.Session.openOn (S 0) e.intake f.copy).mapError .session) v

/-- The labellings of all models of a formula or a draft, with any values as variables. -/
def enumerateAny (e : Engine σ) (f : Sat.AnyFormula) (v : LabelValues) :
    Except EngineError (List Labelling) :=
  match f, v.variables? with
  | .settled f, some v => e.enumerate f v
  | f, _ => do
    let f ← f.copy.mapError .misuse
    let S ← e.solvers
    let session ← (f.openSession (S 0) e.intake).mapError .session
    (Sat.readModels session.solver (fun m => v.decode (m.map .int)) session.state).mapError
      .ofReading

/-- The complete labellings. -/
def complete (e : Engine σ) (f : Framework) : Except EngineError (List Labelling) := do
  let encoding ← (Encoding.complete f).mapError .index
  e.labellingsOfEncoding encoding

/-- The stable labellings. -/
def stable (e : Engine σ) (f : Framework) : Except EngineError (List Labelling) := do
  let encoding ← (Encoding.stable f).mapError .index
  e.labellingsOfEncoding encoding

/-- The preferred labellings. Without arguments there is one, and no solver is needed. -/
def preferred (e : Engine σ) (f : Framework) : Except EngineError (List Labelling) := do
  if f.size = 0 then return [[]]
  let encoding ← (Encoding.complete f).mapError .index
  let v := encoding.vars
  let base ← (encoding.formula.addClause v.nonEmptyClause).mapError .clause
  let S ← e.solvers
  let s ← (Preferred.search S v base).mapError .ofPreferred
  return Preferred.labellings f.size.toNat s

/-- The labellings under a semantics. -/
def labellings (e : Engine σ) (f : Framework) : Semantics → Except EngineError (List Labelling)
  | .complete => e.complete f
  | .stable => e.stable f
  | .preferred => e.preferred f

/-- The labellings of a framework or a sketch. A sketch without arguments need not be settled to be
climbed. -/
def labellingsOfAny (e : Engine σ) (g : AnyFramework) (s : Semantics) :
    Except EngineError (List Labelling) := do
  if s = .preferred ∧ g.size.isEqual (.int 0) then return [[]]
  e.labellings (← g.settleWithin) s

/-- The labellings under the semantics that a value names. -/
def labellingsOfValue (e : Engine σ) (g : AnyFramework) (v : Json) :
    Except EngineError (List Labelling) :=
  match Semantics.ofJson v with
  | .ok s => e.labellingsOfAny g s
  | .error unknown => .error (.unsupported unknown.value)

/-! ## Results -/

/-- The labellings of a framework with what a report on them needs. -/
structure Resolution where
  /-- The semantics asked for. -/
  semantics : Semantics
  /-- The labellings, in no particular order. -/
  labellings : List Labelling
  /-- The framework as a JSON value. -/
  summary : Json
  /-- How long the computation took, in milliseconds, to three decimal places. -/
  elapsed : Binary64

/-- The extensions: what each labelling accepts. -/
def Resolution.extensions (r : Resolution) : List (List Nat) := r.labellings.map Labelling.accepted

/-- Computes the labellings, which takes the given time. -/
def resolve (e : Engine σ) (f : Framework) (s : Semantics) (elapsed : Binary64) :
    Except EngineError Resolution := do
  let labellings ← e.labellings f s
  let summary ← f.summary.mapError .size
  return ⟨s, labellings, summary, elapsed.roundTo 3⟩

/-- Computes the labellings of a framework or a sketch. -/
def resolveAny (e : Engine σ) (g : AnyFramework) (s : Semantics) (elapsed : Binary64) :
    Except EngineError Resolution := do
  let labellings ← e.labellingsOfAny g s
  let summary ← g.summary.mapError .sketch
  return ⟨s, labellings, summary, elapsed.roundTo 3⟩

/-- Computes the labellings under the semantics of a bare name, with which the result cannot be
labelled. -/
def resolveValue (e : Engine σ) (g : AnyFramework) (v : Json) : Except EngineError Resolution := do
  let _ ← e.labellingsOfValue g v
  throw .bareName

end Engine

end Dialectic
