import Dialectic.Encoding
import Dialectic.Sat.Session

/-!
# Climbing to preferred labellings

The preferred labellings are found without going through all complete ones. The base formula
describes the complete labellings that accept something. Starting from a model of it, a climb fixes
what is accepted and asks for one more accepted argument until there is none; what it reached is
recorded, and the base formula is told to accept something else from then on. The search is a
machine with five phases that makes one step at a time. Every climb may have a solver of its own:
`S k` is the one that the climb after the first `k` asks, so nothing is taken for granted about how
the answers of two climbs belong together.
-/

namespace Dialectic.Preferred

open Dialectic.Sat (Formula Model Session Solver)

/-! ## The machine -/

variable {σ : Type}

/-- Where the search stands. -/
inductive Phase where
  /-- A session on the base formula is about to be opened. -/
  | startClimb
  /-- What the model accepts is about to be fixed. -/
  | freezeAndExtend
  /-- A model that accepts more is about to be looked for. -/
  | fixpointCheck
  /-- The model accepts as much as possible and is about to be recorded. -/
  | recordAndExclude
  /-- The search is over. -/
  | done
  deriving DecidableEq, Repr

/-- The state of the search. -/
structure State (σ : Type) where
  /-- Where the search stands. -/
  phase : Phase
  /-- The complete labellings that are still of interest. -/
  base : Formula
  /-- The session of the present climb. -/
  session : Option (Session σ)
  /-- The model found last. -/
  model : Model
  /-- The arguments fixed in the present climb. -/
  frozen : List Nat
  /-- The labellings recorded. -/
  found : List Labelling
  /-- How many sessions were opened. -/
  opened : Nat
  /-- How many sessions were closed. -/
  closed : Nat

/-- Why a step of the search fails. -/
inductive Error where
  /-- A clause is refused. -/
  | clause (e : Sat.ClauseError)
  /-- The session fails. -/
  | session (e : Sat.SessionError)
  /-- A model cannot be read. -/
  | index (e : IndexError)
  /-- A phase needs a session and there is none. -/
  | noSession
  deriving DecidableEq, Repr

/-- The state before the first step. -/
def State.initial (base : Formula) : State σ := ⟨.startClimb, base, none, [], [], [], 0, 0⟩

/-- The clauses that fix the arguments a model accepts and that are not fixed yet. -/
def units (v : LabelVariables) (m : Model) (frozen : List Nat) : List Sat.Clause :=
  let trues := trueVariables m
  let frozen := Std.HashSet.ofList frozen
  (v.inn.zipIdx.filter fun p => decide (p.1 ∈ trues ∧ p.2 ∉ frozen)).map fun p => [p.1]

/-- What is fixed once some arguments were accepted: what was fixed before, and those that were
not. -/
def freeze (frozen accepted : List Nat) : List Nat :=
  frozen ++ accepted.filter fun i => decide (i ∉ frozen)

/-- Opens a session on a copy of the base formula and asks for a first model. -/
def startClimb (S : Nat → Solver σ) (s : State σ) : Except Error (State σ) :=
  let (session, answer) := (Session.start (S s.opened) s.base.copy).solve
  let s := { s with session := some session, frozen := [], opened := s.opened + 1 }
  match answer with
  | .error e => .error (.session e)
  | .ok none => .ok { s with phase := .done }
  | .ok (some m) => .ok { s with phase := .freezeAndExtend, model := m }

/-- Fixes what the model accepts and asks for one more accepted argument, if there are others. -/
def freezeAndExtend (v : LabelVariables) (session : Session σ) (s : State σ) :
    Except Error (State σ) := do
  let session ← ((units v s.model s.frozen).foldlM Session.addClause session).mapError .clause
  let s := { s with frozen := freeze s.frozen (v.accepted s.model) }
  match v.notAccepted s.model with
  | [] => return { s with session := some session, phase := .recordAndExclude }
  | remaining =>
    let session ← (session.addClause remaining).mapError .clause
    return { s with session := some session, phase := .fixpointCheck }

/-- Looks for a model that accepts more. -/
def fixpointCheck (session : Session σ) (s : State σ) : Except Error (State σ) :=
  let (session, answer) := session.solve
  let s := { s with session := some session }
  match answer with
  | .error e => .error (.session e)
  | .ok none => .ok { s with phase := .recordAndExclude }
  | .ok (some m) => .ok { s with phase := .freezeAndExtend, model := m }

/-- Closes the session, if there is one. -/
def State.closeSession (s : State σ) : State σ :=
  match s.session with
  | some session => { s with session := none, closed := s.closed + if session.isOpen then 1 else 0 }
  | none => s

/-- Records the labelling of the model and excludes what accepts no more than it. -/
def recordAndExclude (v : LabelVariables) (s : State σ) : Except Error (State σ) := do
  let s := s.closeSession
  let l ← (v.decode s.model).mapError .index
  let s := { s with found := s.found ++ [l] }
  match v.notAccepted s.model with
  | [] => return { s with phase := .done }
  | exclusion =>
    let base ← (s.base.addClause exclusion).mapError .clause
    return { s with base := base, phase := .startClimb }

/-- One step of the search. -/
def step (S : Nat → Solver σ) (v : LabelVariables) (s : State σ) : Except Error (State σ) :=
  match s.phase, s.session with
  | .startClimb, _ => startClimb S s
  | .freezeAndExtend, some session => freezeAndExtend v session s
  | .fixpointCheck, some session => fixpointCheck session s
  | .recordAndExclude, some _ => recordAndExclude v s
  | .done, _ => .ok s
  | _, none => .error .noSession

/-! ## Running it -/

/-- Steps until the search is over, at most the given number of them. -/
def run (S : Nat → Solver σ) (v : LabelVariables) : Nat → State σ → Except Error (State σ)
  | 0, s => .ok s
  | fuel + 1, s => if s.phase = .done then .ok s else step S v s >>= run S v fuel

/-- A number of steps that no search over `n` arguments exceeds: there are at most `2 ^ n` sets to
record, and a climb makes at most two steps for every argument that it gains. -/
def stepBound (n : Nat) : Nat := (Nat.pow 2 n + 1) * (2 * n + 4)

/-- The search from a base formula to its end. The session that is still open then is closed. -/
def search (S : Nat → Solver σ) (v : LabelVariables) (base : Formula) : Except Error (State σ) :=
  (run S v (stepBound v.inn.length) (State.initial base)).map State.closeSession

/-- The labellings of a finished search; if none accepts anything, the one with nothing decided. -/
def labellings (n : Nat) (s : State σ) : List Labelling :=
  if s.found = [] then [List.replicate n .undecided] else s.found

end Dialectic.Preferred
