import Dialectic.Json.Basic

/-!
# Positions counted from either end

A sequence of `n` places has the positions `0, …, n - 1` from the front and `-1, …, -n` from the
back.
-/

namespace Dialectic

/-- The kinds of sequence that are addressed by position: one that grows, one that is fixed, and the
characters of a text. -/
inductive Sequence where
  | list
  | tuple
  | text
  deriving DecidableEq, Repr

/-- Why a position cannot be found. -/
inductive IndexError where
  /-- The sequence has no such position. -/
  | outOfRange (sequence : Sequence)
  /-- The position is not a signed 64-bit number. -/
  | tooWide
  /-- A list has no such position to be changed. -/
  | noSlot
  /-- A value of a kind that is no position. -/
  | noPosition (sequence : Sequence) (kind : String)
  deriving DecidableEq, Repr

/-- What a sequence is called in messages. -/
def Sequence.name : Sequence → String
  | .list => "list"
  | .tuple => "tuple"
  | .text => "string"

/-- What an index error says. -/
def IndexError.message : IndexError → String
  | .outOfRange sequence => sequence.name ++ " index out of range"
  | .noSlot => "list assignment index out of range"
  | .tooWide => "cannot fit 'int' into an index-sized integer"
  | .noPosition sequence kind =>
    sequence.name ++ " indices must be integers or slices, not " ++ kind

namespace Index

/-- The place from the front that a position means in a sequence of the given length. -/
def place? (length : Nat) (i : Int) : Option Nat :=
  if 0 ≤ i ∧ i < length then some i.toNat
  else if i < 0 ∧ 0 ≤ i + length then some (i + length).toNat
  else none

/-- The place that a position means, or the reason why there is none. -/
def place (sequence : Sequence) (length : Nat) (i : Int) : Except IndexError Nat :=
  match place? length i with
  | some p => .ok p
  | none =>
    if i < -9223372036854775808 ∨ 9223372036854775807 < i then .error .tooWide
    else .error (.outOfRange sequence)

/-- The element at a position. -/
def get {α : Type} (sequence : Sequence) (xs : List α) (i : Int) : Except IndexError α := do
  let p ← place sequence xs.length i
  match xs[p]? with
  | some x => return x
  | none => throw (.outOfRange sequence)

/-- The element of an array at a position. -/
def read {α : Type} (sequence : Sequence) (xs : Array α) (i : Int) : Except IndexError α := do
  let p ← place sequence xs.size i
  match xs[p]? with
  | some x => return x
  | none => throw (.outOfRange sequence)

/-- An array is read as the list of its elements is. -/
theorem read_eq_get {α : Type} (sequence : Sequence) (xs : Array α) (i : Int) :
    read sequence xs i = get sequence xs.toList i := by
  simp [read, get]

/-- The position that a value is: an integer, or a truth value, which is zero or one. -/
def ofJson (sequence : Sequence) (v : Json) : Except IndexError Int :=
  match v.integer? with
  | some n => .ok n
  | none => .error (.noPosition sequence v.kind)

/-- The place of the item of a list that is changed or taken away, by the position that a value
is. -/
def slot (length : Nat) (v : Json) : Except IndexError Nat := do
  match place .list length (← ofJson .list v) with
  | .error (.outOfRange _) => throw .noSlot
  | result => result

/-- A position lies in the sequence exactly when it is between the two ends. -/
theorem place?_isSome_iff (length : Nat) (i : Int) :
    (place? length i).isSome ↔ -(length : Int) ≤ i ∧ i < length := by
  unfold place?
  split
  · simp
    omega
  · split <;> simp <;> omega

/-- The place of a position is its remainder by the length. -/
theorem place?_eq_emod {length p : Nat} {i : Int} (h : place? length i = some p) :
    (p : Int) = i % length := by
  unfold place? at h
  split at h
  · rename_i hi
    simp only [Option.some.injEq] at h
    rw [Int.emod_eq_of_lt hi.1 hi.2]
    omega
  · split at h
    · rename_i _ hi
      simp only [Option.some.injEq] at h
      have : (i + length) % length = i + length := Int.emod_eq_of_lt hi.2 (by omega)
      rw [← Int.add_emod_right, this]
      omega
    · simp at h

/-- A number below the length is its own place. -/
theorem place_natCast (sequence : Sequence) {length p : Nat} (h : p < length) :
    place sequence length (p : Int) = .ok p := by
  have h₁ : place? length (p : Int) = some p := by
    rw [place?, if_pos (by omega)]
    simp
  rw [place, h₁]

/-- At a number below the length a list has the element of that number. -/
theorem get_natCast {α : Type} (sequence : Sequence) {xs : List α} {p : Nat} (h : p < xs.length) :
    get sequence xs (p : Int) = .ok xs[p] := by
  rw [get, place_natCast sequence h]
  simp only [bind, Except.bind]
  rw [List.getElem?_eq_getElem h]
  rfl

/-- At a number below the length an array has the element of that number. -/
theorem read_natCast {α : Type} (sequence : Sequence) {xs : Array α} {p : Nat} (h : p < xs.size) :
    read sequence xs (p : Int) = .ok xs[p] := by
  rw [read_eq_get, get_natCast sequence h, Array.getElem_toList]

/-- The place of a position lies in the sequence. -/
theorem lt_of_place? {length p : Nat} {i : Int} (h : place? length i = some p) : p < length := by
  unfold place? at h
  split at h
  · simp only [Option.some.injEq] at h
    omega
  · split at h
    · simp only [Option.some.injEq] at h
      omega
    · simp at h

end Index

end Dialectic
