import Dialectic.Sat.Trail

/-!
# Inferring

Two literals of every clause are watched: as long as neither fails, the clause need not be looked
at. When a watched literal comes to fail, another one is watched instead, or the other watched
literal is inferred, or the clause is refuted. For this alone literals are written as codes, so that
what is kept of a literal is found at its place in an array. Nothing here has to be right for an
answer to be right: an answer is checked against what is known of the clauses.
-/

namespace Dialectic.Sat

/-! ## Codes -/

/-- The code of a literal: twice its variable, and one more if it is negative. -/
def code (l : Int) : Nat := if l < 0 then 2 * l.natAbs + 1 else 2 * l.natAbs

/-- The literal of a code. -/
def ofCode (c : Nat) : Int := if c % 2 = 1 then -((c / 2 : Nat) : Int) else ((c / 2 : Nat) : Int)

/-- What is said of every code: one if its literal holds, two if it fails, else zero. -/
structure Marks where
  /-- What is said, a byte for every code. -/
  bytes : ByteArray

namespace Marks

/-- What is said of a code. -/
@[inline] def get (ms : Marks) (c : Nat) : UInt8 := if h : c < ms.bytes.size then ms.bytes[c] else 0

/-- Says something of a code. -/
@[inline] def set (ms : Marks) (c : Nat) (x : UInt8) : Marks :=
  if h : c < ms.bytes.size then ⟨ms.bytes.set c x h⟩ else ms

/-- Says of a code that its literal holds, and of the other code of the variable that its literal
fails. -/
@[inline] def hold (ms : Marks) (c : Nat) : Marks := (ms.set c 1).set (c ^^^ 1) 2

/-- Says nothing more of the two codes of a variable. -/
@[inline] def clear (ms : Marks) (c : Nat) : Marks := (ms.set c 0).set (c ^^^ 1) 0

end Marks

/-- What is inferred, and what that goes by. The clauses are numbers here. -/
structure Inference where
  /-- What is decided. -/
  trail : Trail := {}
  /-- For every variable the literal that held last. -/
  last : Array Int := #[]
  /-- For every clause the codes of its literals. -/
  bodies : Array (Array Nat) := #[]
  /-- For every clause the code of a literal that is watched. -/
  first : Array Nat := #[]
  /-- For every clause the code of the other literal that is watched. -/
  second : Array Nat := #[]
  /-- What the trail says of every code. Of zero, which is no literal, it says that it fails. -/
  marks : Marks := ⟨⟨#[2, 2]⟩⟩
  /-- For every code the clauses in which its literal is watched, each followed by the code of
  another literal of the clause. -/
  watchers : Array (Array Nat) := #[#[], #[]]

namespace Inference

/-! ## Clauses -/

/-- Makes room for the variables of a clause. -/
def grow (s : Inference) (c : Clause) : Inference :=
  let n := 2 * Clause.maxVar c + 2
  if s.watchers.size < n then
    { s with
      marks := ⟨Nat.fold (n - s.marks.bytes.size) (fun _ _ bytes => bytes.push 0) s.marks.bytes⟩
      watchers := s.watchers.rightpad n #[] }
  else s

/-- Takes up a clause under the next number, without watching it. -/
def push (s : Inference) (c : Clause) : Inference :=
  let s := s.grow c
  { s with
    bodies := s.bodies.push (c.map code).toArray
    first := s.first.push 0
    second := s.second.push 0 }

/-- Lists a clause, and another literal of it, with those in which a literal is watched. -/
@[inline] def enlist (watchers : Array (Array Nat)) (c i other : Nat) : Array (Array Nat) :=
  watchers.modify c fun ws => (ws.push i).push other

/-- Watches two literals of a clause. -/
def watch (s : Inference) (i : Nat) (l m : Int) : Inference :=
  let a := code l
  let b := code m
  { s with
    first := s.first.setIfInBounds i a
    second := s.second.setIfInBounds i b
    watchers := enlist (enlist s.watchers a i b) b i a }

/-! ## Literals -/

/-- Infers a literal from a clause. -/
def infer (s : Inference) (l : Int) (i : Nat) : Inference :=
  { s with trail := s.trail.infer l i, marks := s.marks.hold (code l) }

/-- Names another clause that a literal is inferred from. -/
def explain (s : Inference) (l : Int) (i : Nat) : Inference :=
  { s with trail := s.trail.explain l i }

/-- Decides a literal. -/
def guess (s : Inference) (l : Int) : Inference :=
  { s with trail := s.trail.guess l, marks := s.marks.hold (code l) }

/-- Takes back the literals above a level. They are kept as the last ones of their variables. -/
def unwind (levels : Array Nat) (level : Nat) :
    List Int → Valuation → Marks → Array Int → List Int × Valuation × Marks × Array Int
  | [], a, marks, last => ([], a, marks, last)
  | l :: older, a, marks, last =>
    if levels.getD l.natAbs 0 ≤ level then (l :: older, a, marks, last)
    else unwind levels level older (a.free l) (marks.clear (code l)) (setAt last 0 l.natAbs l)

/-- Takes back all levels above a given one. -/
def backjump (s : Inference) (level : Nat) : Inference :=
  if level < s.trail.level then
    let t := s.trail
    let (literals, valuation, marks, last) :=
      unwind t.levels level t.literals t.valuation s.marks s.last
    { s with
      trail := { t with literals := literals, fresh := [], valuation := valuation, level := level }
      marks := marks
      last := last }
  else s

/-! ## Propagation -/

/-- The code of a literal that does not fail among the first ones of a clause, other than a given
one; zero if there is none. -/
def replacement (marks : Marks) (other : Nat) (body : Array Nat) : Nat → Nat
  | 0 => 0
  | n + 1 =>
    let c := body.getD n 0
    if c = other || marks.get c = 2 then replacement marks other body n else c

/-- Puts a clause, and another literal of it, at a place of a list of watched clauses. -/
@[inline] def putAt (ws : Array Nat) (i clause other : Nat) : Array Nat :=
  (ws.setIfInBounds i clause).setIfInBounds (i + 1) other

/-- Moves a number of clauses in a list of watched ones from one place to an earlier one, and ends
the list after them. -/
def close (ws : Array Nat) (start target : Nat) : Nat → Array Nat
  | 0 => ws.shrink target
  | n + 1 =>
    let i := ws.getD start 0
    let other := ws.getD (start + 1) 0
    close (putAt ws target i other) (start + 2) (target + 2) n

/-- What comes of going through the clauses in which a literal is watched. -/
structure Sweep where
  /-- What is decided. -/
  trail : Trail
  /-- For every clause the code of a literal that is watched. -/
  first : Array Nat
  /-- For every clause the code of the other literal that is watched. -/
  second : Array Nat
  /-- What the trail says of every code. -/
  marks : Marks
  /-- For every code the clauses in which its literal is watched. -/
  watchers : Array (Array Nat)
  /-- A clause that is refuted. -/
  refuted : Option Nat

/-- Goes through a number of the clauses in which the literal of a code is watched that has come to
fail. They stand in a list from one place on; those in which it is still watched are moved to an
earlier one. -/
def sweep (bodies : Array (Array Nat)) (c : Nat) (ws : Array Nat) (start target : Nat)
    (trail : Trail) (first second : Array Nat) (marks : Marks) (watchers : Array (Array Nat)) :
    Nat → Sweep
  | 0 => ⟨trail, first, second, marks, watchers.setIfInBounds c (close ws start target 0), none⟩
  | n + 1 =>
    let i := ws.getD start 0
    let x := ws.getD (start + 1) 0
    if marks.get x = 1 then
      sweep bodies c (putAt ws target i x) (start + 2) (target + 2) trail first second
        marks watchers n
    else
      let a := first.getD i 0
      let other := if a = c then second.getD i 0 else a
      let m := marks.get other
      if m = 1 then
        sweep bodies c (putAt ws target i other) (start + 2) (target + 2) trail first second
          marks watchers n
      else
        let body := bodies.getD i #[]
        let new := replacement marks other body body.size
        if new ≠ 0 then
          let watchers := enlist watchers new i other
          if a = c then
            sweep bodies c ws (start + 2) target trail (first.setIfInBounds i new) second
              marks watchers n
          else
            sweep bodies c ws (start + 2) target trail first (second.setIfInBounds i new)
              marks watchers n
        else if m = 2 then
          let ws := close ws start target (n + 1)
          ⟨trail, first, second, marks, watchers.setIfInBounds c ws, some i⟩
        else
          sweep bodies c (putAt ws target i other) (start + 2) (target + 2)
            (trail.infer (ofCode other) i) first second (marks.hold other) watchers n

/-- Infers what follows from literals that hold, one after the other, and then from those inferred,
in at most a number of steps. -/
def propagateWith (bodies : Array (Array Nat)) : Nat → List Int → Sweep → Sweep
  | 0, _, s => s
  | fuel + 1, [], s =>
    match s.trail.fresh with
    | [] => s
    | fresh =>
      propagateWith bodies fuel fresh.reverse { s with trail := { s.trail with fresh := [] } }
  | fuel + 1, l :: queue, s =>
    let c := code (-l)
    let ⟨trail, first, second, marks, watchers, _⟩ := s
    let ws := watchers.getD c #[]
    let s := sweep bodies c ws 0 0 trail first second marks (watchers.setIfInBounds c #[])
      (ws.size / 2)
    match s.refuted with
    | none => propagateWith bodies fuel queue s
    | some _ => s

/-- Infers all that follows, if there are enough steps for the literals. The result tells which
clause is refuted, if one is. -/
def propagate (s : Inference) (steps : Nat) : Inference × Option Nat :=
  let ⟨trail, last, bodies, first, second, marks, watchers⟩ := s
  let ⟨trail, first, second, marks, watchers, refuted⟩ :=
    propagateWith bodies steps [] ⟨trail, first, second, marks, watchers, none⟩
  (⟨trail, last, bodies, first, second, marks, watchers⟩, refuted)

end Inference

end Dialectic.Sat
