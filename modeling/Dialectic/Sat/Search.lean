import Dialectic.Sat.Inference

/-!
# Searching

What a search goes by. The next variable to decide is the one with the highest score, and a variable
scores when it has a part in a refutation. A clause may be taken up at any time: if it is refuted,
or has only one literal left, as many levels are taken back as it takes. Nothing here has to be
right for an answer to be right: an answer is checked against what is known of the clauses.
-/

namespace Dialectic.Sat

/-- Where a search stands. The clauses themselves are kept elsewhere; here they are numbers. -/
structure Search extends Inference where
  /-- For every clause how it was come by: zero if it was given, else the number of levels it
  joined. -/
  grades : Array Nat := #[]
  /-- The clause taken up last. -/
  latest : Clause := []
  /-- For every variable its score; zero if it is in no clause. -/
  scores : Array Nat := #[]
  /-- What a variable scores next. -/
  bonus : Nat := 1024
  /-- How many literals of the trail follow from single clauses. -/
  settled : Nat := 0
  /-- How many clauses were refuted since the last new start. -/
  refutations : Nat := 0
  /-- How many clauses are refuted before the next new start. -/
  patience : Nat := 100
  /-- How many learned clauses are kept. -/
  capacity : Nat := 2000
  /-- A clause that is refuted without any decision. -/
  clash : Option Nat := none

namespace Search

/-- Infers all that follows; every variable is decided at most once. The result tells which clause
is refuted, if one is. -/
def propagate (s : Search) : Search × Option Nat :=
  let steps := 2 * s.scores.size + 2
  let (i, refuted) := s.toInference.propagate steps
  ({ s with toInference := i }, refuted)

/-! ## Deciding -/

/-- Takes back all levels above a given one. -/
def backjump (s : Search) (level : Nat) : Search :=
  { s with toInference := s.toInference.backjump level }

/-- Of the first undecided variables, and a given one, the one with the highest score. -/
def best (s : Search) : Nat → Nat → Nat → Nat
  | 0, v, _ => v
  | n + 1, v, score =>
    let x := s.scores.getD n 0
    if 0 < x ∧ score ≤ x ∧ s.trail.valuation.entry n = 0 then best s n n x else best s n v score

/-- The variable to decide next; zero if all are decided. -/
def next (s : Search) : Nat := s.best s.scores.size 0 0

/-- Decides a variable as it was last. -/
def guess (s : Search) (v : Nat) : Search :=
  let l := s.last.getD v 0
  { s with toInference := s.toInference.guess (if l = 0 then (v : Int) else l) }

/-- Begins where the clause taken up last fails: if it excludes a model found before, this is near
others. -/
def begin (s : Search) : Search :=
  { s with last := s.latest.foldl (fun last l => setAt last 0 l.natAbs (-l)) s.last }

/-- The score beyond which all scores are made smaller. -/
def scoreLimit : Nat := 1000000000000000

/-- Scores the variables of some literals. -/
def reward (s : Search) (ls : List Int) : Search :=
  let bonus := s.bonus
  let scores := ls.foldl (fun scores l => scores.modify l.natAbs (· + bonus)) s.scores
  let bonus := bonus + bonus / 64
  if scoreLimit < bonus then
    { s with
      scores := scores.map fun x => if x = 0 then 0 else x / 1000000000 + 1
      bonus := bonus / 1000000000 }
  else { s with scores := scores, bonus := bonus }

/-- Takes up the variables of a clause. -/
def meet (s : Search) (c : Clause) : Search :=
  { s with
    latest := c
    scores := c.foldl (fun scores l =>
      if l.natAbs < scores.size then scores.modify l.natAbs (· + 1) else setAt scores 0 l.natAbs 1)
      s.scores }

/-! ## Clauses -/

/-- Watches two literals of a clause. -/
def watch (s : Search) (i : Nat) (a b : Int) : Search :=
  { s with toInference := s.toInference.watch i a b }

/-- Infers a literal from a clause. -/
def infer (s : Search) (l : Int) (i : Nat) : Search :=
  { s with toInference := s.toInference.infer l i }

/-- Watches a clause that is not watched yet, after taking back the levels at which it is refuted or
has only one literal left. A literal that is the only one left is inferred. -/
def placeLate (s : Search) (i : Nat) (c : Clause) : Search :=
  let ((a, m), (b, n)) := s.trail.topTwo c
  let beyond := s.trail.level + 1
  if a = 0 then { s with clash := some i }
  else if b = 0 then
    let s := s.backjump 0
    match s.trail.truth a with
    | .holds => s
    | .fails => { s with clash := some i }
    | .unknown => s.infer a i
  else if n = beyond then s.watch i a b
  else if m = beyond then
    match s.trail.truth a with
    | .unknown => ((s.backjump n).watch i a b).infer a i
    | _ => s.watch i a b
  else if m = 0 then { s with clash := some i }
  else if n < m then ((s.backjump n).watch i a b).infer a i
  else (s.backjump (m - 1)).watch i a b

/-- Watches a clause that is not watched yet: its first two literals, if they do not fail, else
others. -/
def place (s : Search) (i : Nat) (c : Clause) : Search :=
  match c with
  | a :: b :: _ =>
    if a ≠ b ∧ s.trail.truth a ≠ .fails ∧ s.trail.truth b ≠ .fails then s.watch i a b
    else s.placeLate i c
  | _ => s.placeLate i c

/-- Takes up a clause under the next number. -/
def attach (s : Search) (c : Clause) (grade : Nat) : Search :=
  let i := s.grades.size
  { s with toInference := s.toInference.push c, grades := s.grades.push grade }.place i c

/-- Takes up a clause with one literal that holds anyway, and infers it from the clause. -/
def settle (s : Search) (l : Int) : Search :=
  let i := s.grades.size
  { s with toInference := (s.toInference.push [l]).explain l i, grades := s.grades.push 1 }

/-- The number of levels that the literals of a clause belong to. -/
def spread (s : Search) (c : Clause) : Nat :=
  (c.foldl (fun levels l => levels.insert (s.trail.levelOf l)) ([] : List Nat)).length

/-- The search before a new start: nothing is decided and no clause taken up, but the scores
stay. -/
def renewed (s : Search) : Search :=
  { last := s.last, latest := s.latest, scores := s.scores, bonus := s.bonus,
    patience := s.patience, capacity := s.capacity + 300 }

/-- Whether a clause is kept at a new start: clauses that join few levels are, and of the others the
better half. -/
def isKept (s : Search) (middle i : Nat) : Bool :=
  let grade := s.grades.getD i 0
  grade ≤ 2 || grade < middle || grade == middle && s.grades.size < 2 * i

/-- The grade in the middle of all those that are higher than two. -/
def middleGrade (s : Search) : Nat :=
  let grades := (s.grades.toList.filter fun grade => decide (2 < grade)).mergeSort
  grades.getD (grades.length / 2) 0

end Search

end Dialectic.Sat
