import Dialectic.Framework.Basic
import Dialectic.Labelling

/-!
# Semantics

The three semantics as properties of labellings: a labelling is complete if an argument is accepted
exactly when all its attackers are rejected, and rejected exactly when one of them is accepted; it
is stable if moreover nothing is undecided, and preferred if it is complete and accepts as much as
possible. These are the definitions that the computed labellings are measured by.
-/

namespace Dialectic

/-- A semantics for argumentation frameworks. -/
inductive Semantics where
  | complete
  | stable
  | preferred
  deriving DecidableEq, Repr

namespace Semantics

/-- The name of a semantics. -/
def name : Semantics → String
  | .complete => "complete"
  | .stable => "stable"
  | .preferred => "preferred"

/-- The semantics of a name. -/
def ofName? (s : String) : Option Semantics :=
  [.complete, .stable, .preferred].find? fun t => t.name == s

theorem ofName?_name (s : Semantics) : ofName? s.name = some s := by
  cases s <;> decide

end Semantics

/-- A value that names no semantics. -/
structure UnknownSemantics where
  /-- The value. -/
  value : Json
  deriving Repr

/-- What the error says. -/
def UnknownSemantics.message (e : UnknownSemantics) : String :=
  e.value.display ++ " is not a valid Semantics"

/-- The semantics that a value names. -/
def Semantics.ofJson (v : Json) : Except UnknownSemantics Semantics :=
  match v.name?.bind ofName? with
  | some s => .ok s
  | none => .error ⟨v⟩

namespace Framework

/-! ## Labellings -/

/-- Whether the first argument attacks the second. -/
def Attacks (f : Framework) (i j : Nat) : Prop := ⟨(i : Int), (j : Int)⟩ ∈ f.attacks

instance (f : Framework) (i j : Nat) : Decidable (f.Attacks i j) := by
  unfold Attacks
  infer_instance

/-- A labelling of the framework in which an argument is accepted exactly if every attacker is
rejected, and rejected exactly if some attacker is accepted. -/
def IsComplete (f : Framework) (l : Labelling) : Prop :=
  (l.length : Int) = f.size ∧
    ∀ i < l.length,
      (l[i]? = some .accepted ↔ ∀ j, f.Attacks j i → l[j]? = some .rejected) ∧
        (l[i]? = some .rejected ↔ ∃ j, f.Attacks j i ∧ l[j]? = some .accepted)

/-- A complete labelling without undecided arguments. -/
def IsStable (f : Framework) (l : Labelling) : Prop := f.IsComplete l ∧ .undecided ∉ l

/-- A complete labelling whose accepted arguments are not fewer than those of another. -/
def IsPreferred (f : Framework) (l : Labelling) : Prop :=
  f.IsComplete l ∧ ∀ l', f.IsComplete l' → l.accepted ⊆ l'.accepted → l'.accepted ⊆ l.accepted

/-- The labellings that a semantics admits. -/
def Admits (f : Framework) : Semantics → Labelling → Prop
  | .complete => f.IsComplete
  | .stable => f.IsStable
  | .preferred => f.IsPreferred

/-! ## Extensions -/

/-- No member of the set attacks a member. -/
def IsConflictFree (f : Framework) (e : List Nat) : Prop := ∀ i ∈ e, ∀ j ∈ e, ¬ f.Attacks i j

/-- Every attacker of the argument is attacked by the set. -/
def Defends (f : Framework) (e : List Nat) (i : Nat) : Prop :=
  ∀ j, f.Attacks j i → ∃ k ∈ e, f.Attacks k j

/-- A conflict-free set of arguments that defends its members. -/
def IsAdmissible (f : Framework) (e : List Nat) : Prop :=
  (∀ i ∈ e, (i : Int) < f.size) ∧ f.IsConflictFree e ∧ ∀ i ∈ e, f.Defends e i

/-- A conflict-free set whose members are exactly the arguments that it defends. -/
def IsCompleteExtension (f : Framework) (e : List Nat) : Prop :=
  f.IsConflictFree e ∧ ∀ i, i ∈ e ↔ (i : Int) < f.size ∧ f.Defends e i

/-- A conflict-free set that attacks every argument outside it. -/
def IsStableExtension (f : Framework) (e : List Nat) : Prop :=
  (∀ i ∈ e, (i : Int) < f.size) ∧ f.IsConflictFree e ∧
    ∀ i : Nat, (i : Int) < f.size → i ∉ e → ∃ j ∈ e, f.Attacks j i

/-- An admissible set that no admissible set properly contains. -/
def IsPreferredExtension (f : Framework) (e : List Nat) : Prop :=
  f.IsAdmissible e ∧ ∀ e', f.IsAdmissible e' → e ⊆ e' → e' ⊆ e

/-- The extensions of a semantics, defined on sets of arguments. -/
def Extends (f : Framework) : Semantics → List Nat → Prop
  | .complete => f.IsCompleteExtension
  | .stable => f.IsStableExtension
  | .preferred => f.IsPreferredExtension

end Framework

end Dialectic
