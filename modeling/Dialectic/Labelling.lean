import Dialectic.Index
import Dialectic.Json.Misuse

/-!
# Labellings

A labelling gives every argument a status, in the order of the arguments.
-/

namespace Dialectic

/-! ## Statuses -/

/-- The status of an argument. -/
inductive Status where
  | accepted
  | rejected
  | undecided
  deriving DecidableEq, Repr

namespace Status

/-- The name of a status. -/
def name : Status → String
  | .accepted => "in"
  | .rejected => "out"
  | .undecided => "undec"

/-- The letter of a status. -/
def letter : Status → Char
  | .accepted => 'I'
  | .rejected => 'O'
  | .undecided => 'U'

/-- The status of a name. -/
def ofName? (s : String) : Option Status :=
  [.accepted, .rejected, .undecided].find? fun t => t.name == s

/-- The name of a status leads back to it. -/
theorem ofName?_name (s : Status) : ofName? s.name = some s := by
  cases s <;> decide

end Status

/-- A value that names no status. -/
structure UnknownStatus where
  /-- The value. -/
  value : Json
  deriving Repr

/-- What the error says. -/
def UnknownStatus.message (e : UnknownStatus) : String :=
  e.value.display ++ " is not a valid Acceptability"

/-- The status that a value names. -/
def Status.ofJson (v : Json) : Except UnknownStatus Status :=
  match v.name?.bind ofName? with
  | some s => .ok s
  | none => .error ⟨v⟩

/-! ## Labellings -/

/-- The statuses of the arguments `0, 1, …`. -/
abbrev Labelling := List Status

namespace Labelling

/-- The arguments of a status, in increasing order. -/
def indices (l : Labelling) (s : Status) : List Nat :=
  (l.zipIdx.filter fun p => p.1 = s).map (·.2)

/-- The accepted arguments: the extension of the labelling. -/
def accepted (l : Labelling) : List Nat := l.indices .accepted

/-- The rejected arguments. -/
def rejected (l : Labelling) : List Nat := l.indices .rejected

/-- The undecided arguments. -/
def undecided (l : Labelling) : List Nat := l.indices .undecided

/-- The status at a position. -/
def status (l : Labelling) (i : Int) : Except IndexError Status := Index.get .tuple l i

/-- The status at the position that a value is. -/
def statusAt (l : Labelling) (v : Json) : Except IndexError Status :=
  Index.ofJson .tuple v >>= l.status

/-- The statuses as letters. -/
def letters (l : Labelling) : String := String.ofList (l.map Status.letter)

/-- The labelling as a message shows it. -/
def text (l : Labelling) : String := "Labelling(" ++ l.letters ++ ")"

/-- An argument has a status exactly if it is listed under it. -/
theorem mem_indices {l : Labelling} {s : Status} {i : Nat} :
    i ∈ l.indices s ↔ l[i]? = some s := by
  simp only [indices, List.mem_map, List.mem_filter, decide_eq_true_eq]
  constructor
  · rintro ⟨⟨t, j⟩, ⟨h, rfl⟩, rfl⟩
    exact List.mem_zipIdx_iff_getElem?.1 h
  · intro h
    exact ⟨(s, i), ⟨List.mem_zipIdx_iff_getElem?.2 h, rfl⟩, rfl⟩

/-- What is listed under a status is an argument. -/
theorem lt_length_of_mem_indices {l : Labelling} {s : Status} {i : Nat} (h : i ∈ l.indices s) :
    i < l.length :=
  (List.getElem?_eq_some_iff.1 (mem_indices.1 h)).1

/-- An argument is in the extension exactly if its status is that it is accepted. -/
theorem mem_accepted {l : Labelling} {i : Nat} :
    i ∈ l.accepted ↔ l[i]? = some .accepted := mem_indices

/-- The arguments of a status are listed in increasing order, each once. -/
theorem indices_pairwise_lt (l : Labelling) (s : Status) : (l.indices s).Pairwise (· < ·) := by
  have h : l.zipIdx.map (·.2) = List.range' 0 l.length := List.zipIdx_map_snd 0 l
  have hs : (l.indices s).Sublist (List.range' 0 l.length) := by
    rw [indices, ← h]
    exact List.filter_sublist.map _
  exact List.Pairwise.sublist hs List.pairwise_lt_range'

/-- The accepted arguments are listed once each. -/
theorem nodup_accepted (l : Labelling) : l.accepted.Nodup :=
  (l.indices_pairwise_lt .accepted).imp fun h => Nat.ne_of_lt h

/-! ## As a value -/

/-- Why an argument has no name. -/
inductive LabelError where
  /-- There are not so many names. -/
  | index (e : IndexError)
  /-- What stands for the names has no items. -/
  | misuse (e : Json.Misuse)
  /-- The names are not found under numbers. -/
  | unknown (i : Nat)
  deriving DecidableEq, Repr

/-- What the error says. -/
def LabelError.message : LabelError → String
  | .index e => e.message
  | .misuse e => e.message
  | .unknown i => toString i

/-- What an argument is called: its name, which may be any value, or its number if there are no
names. -/
def label (names : Json) (i : Nat) : Except LabelError Json :=
  if names.isTrue then
    match names with
    | .arr items => (Index.get .list items i).mapError .index
    | .str t => ((Index.get .text t i).map fun c => .str [c]).mapError .index
    | .obj _ => .error (.unknown i)
    | v => .error (.misuse (.subscript v.kind))
  else .ok (.int i)

/-- The labelling as a JSON value: the statuses, and what the arguments of each status are
called. -/
def toJson (l : Labelling) (names : Json) : Except LabelError Json := do
  let accepted ← l.accepted.mapM (label names)
  let rejected ← l.rejected.mapM (label names)
  let undecided ← l.undecided.mapM (label names)
  return .obj
    [("statuses", .arr (l.map fun s => .str s.name)),
     ("accepted", .arr accepted),
     ("rejected", .arr rejected),
     ("undecided", .arr undecided)]

end Labelling

end Dialectic
