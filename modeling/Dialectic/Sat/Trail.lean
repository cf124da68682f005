import Dialectic.Sat.Valuation

/-!
# Trails

A trail is a valuation with its history: the literals in the order in which they came to hold, each
either decided or inferred from a clause. Every literal belongs to a level, the number of decisions
that were in force when it came to hold; all levels above a given one can be taken back.
-/

namespace Dialectic.Sat

/-- A valuation with its history. -/
structure Trail where
  /-- What is decided. -/
  valuation : Valuation := {}
  /-- The literals that hold, the newest first. -/
  literals : List Int := []
  /-- The literals from which nothing has been inferred yet, the newest first. -/
  fresh : List Int := []
  /-- The number of decisions in force. -/
  level : Nat := 0
  /-- For every variable the level of its literal. -/
  levels : Array Nat := #[]
  /-- For every variable one more than the number of the clause that its literal was inferred from,
  or zero if it was decided. -/
  reasons : Array Nat := #[]

namespace Trail

/-- The level of the literal of a variable. -/
def levelOf (t : Trail) (l : Int) : Nat := t.levels.getD l.natAbs 0

/-- The number of the clause that the literal of a variable was inferred from. -/
def reason? (t : Trail) (l : Int) : Option Nat :=
  match t.reasons.getD l.natAbs 0 with
  | 0 => none
  | i + 1 => some i

/-- What the valuation says about a literal. -/
def truth (t : Trail) (l : Int) : Truth := t.valuation.truth l

/-- The trail on which a literal has come to hold; `mark` is zero if it was decided, else one more
than the number of the clause that it was inferred from. -/
def record (t : Trail) (l : Int) (mark : Nat) : Trail :=
  { t with
    valuation := t.valuation.assign l
    literals := l :: t.literals
    fresh := l :: t.fresh
    levels := setAt t.levels 0 l.natAbs t.level
    reasons := setAt t.reasons 0 l.natAbs mark }

/-- Infers a literal from a clause. -/
def infer (t : Trail) (l : Int) (clause : Nat) : Trail := t.record l (clause + 1)

/-- Decides a literal. -/
def guess (t : Trail) (l : Int) : Trail := { t with level := t.level + 1 }.record l 0

/-- Names another clause that a literal is inferred from. -/
def explain (t : Trail) (l : Int) (clause : Nat) : Trail :=
  { t with reasons := t.reasons.setIfInBounds l.natAbs (clause + 1) }

/-- Whether all literals of a clause fail. -/
def refutes (t : Trail) (c : Clause) : Bool := c.all fun l => t.truth l == .fails

/-- The level down to which a clause is refuted: that of a literal that fails; of others, one that
is beyond all levels. -/
def rank (t : Trail) (l : Int) : Nat :=
  match t.truth l with
  | .fails => t.levelOf l
  | _ => t.level + 1

/-- Two literals of a clause with the highest ranks, each with its rank; zero stands for none. -/
def topTwo (t : Trail) (c : Clause) : (Int × Nat) × (Int × Nat) :=
  c.foldl (fun acc l =>
    let (a, b) := acc
    if l = a.1 ∨ l = b.1 then acc
    else
      let r := t.rank l
      if a.1 = 0 ∨ a.2 < r then ((l, r), a)
      else if b.1 = 0 ∨ b.2 < r then (a, (l, r))
      else acc) ((0, 0), (0, 0))

end Trail

end Dialectic.Sat
