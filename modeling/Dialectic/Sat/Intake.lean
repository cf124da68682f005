import Dialectic.Json.Basic
import Dialectic.Sat.Clause

/-!
# How solvers take clauses

A solver can be given any values for a clause. What it makes of them is left open here: an intake
is any function that says so. What is known of all solvers is that they take values which they read
as literals and refuse all others (`Intake.ReadsBy`), and that they take literals of at most
thirty-one bits as they are (`Intake.TakesFit`). The intakes of the solvers that can be asked for by
name are in `Dialectic.Sat.Kind`.
-/

namespace Dialectic.Sat

/-! ## Intakes -/

/-- Why a clause is refused. -/
inductive Intake.Refusal where
  /-- A value is no integer. -/
  | notInteger
  /-- A literal is zero when it is read as a number of thirty-two bits. -/
  | zero
  /-- A literal has more than sixty-four bits. The clause is taken all the same. -/
  | tooWide (operation : String)
  deriving DecidableEq, Repr

/-- What the error says. -/
def Intake.Refusal.message : Refusal → String
  | .notInteger => "integer expected"
  | .zero => "non-zero integer expected"
  | .tooWide operation =>
    "<built-in function " ++ operation ++ "> returned a result with an exception set"

/-- What a solver makes of some values. -/
inductive Taking where
  /-- It takes a clause, and may complain all the same. -/
  | taken (c : Clause) (complaint : Option Intake.Refusal)
  /-- It refuses them, and begins its next clause with some literals. -/
  | refused (kept : Clause) (refusal : Intake.Refusal)

/-- How a solver takes clauses. -/
structure Intake where
  /-- What it makes of some values. -/
  take : List Json → Taking

namespace Intake

/-- The clause that a solver reads in some values when a session is opened. -/
def clauseOf (i : Intake) (vs : List Json) : Except Refusal Clause :=
  match i.take vs with
  | .taken c none => .ok c
  | .taken _ (some refusal) => .error refusal
  | .refused _ refusal => .error refusal

/-! ## What is known of them -/

/-- A value as a literal, if it is an integer or a truth value and is not read as zero. -/
def literalBy? (read : Int → Int) (v : Json) : Option Int :=
  v.integer?.bind fun n => if read n = 0 then none else some (read n)

/-- Some values as literals, if all of them can be read. -/
def readBy? (read : Int → Int) (vs : List Json) : Option Clause := vs.mapM (literalBy? read)

@[simp] theorem readBy?_nil (read : Int → Int) : readBy? read [] = some [] := rfl

/-- The first value is read, and then the others. -/
theorem readBy?_cons (read : Int → Int) (v : Json) (vs : List Json) :
    readBy? read (v :: vs) =
      (literalBy? read v).bind fun l => (readBy? read vs).map (l :: ·) := by
  rw [readBy?, List.mapM_cons, readBy?]
  cases literalBy? read v with
  | none => rfl
  | some l => cases vs.mapM (literalBy? read) <;> rfl

/-- Whether a solver reads its literals by a function: it takes values if it can read all of them,
and refuses them otherwise. -/
structure ReadsBy (i : Intake) (read : Int → Int) : Prop where
  /-- Values that can be read are taken. -/
  taken : ∀ {vs : List Json} {c : Clause}, readBy? read vs = some c →
    ∃ complaint, i.take vs = .taken c complaint
  /-- Other values are refused. -/
  refused : ∀ {vs : List Json}, readBy? read vs = none →
    ∃ kept refusal, i.take vs = .refused kept refusal

/-- Whether an integer is a literal that all solvers take as it is: it is not zero and has at most
thirty-one bits. -/
def IsFit (l : Int) : Prop := l ≠ 0 ∧ l.natAbs < 2147483648

instance (l : Int) : Decidable (IsFit l) := inferInstanceAs (Decidable (_ ∧ _))

/-- Whether a solver takes a clause of such literals as it is. -/
def TakesFit (i : Intake) : Prop :=
  ∀ c : Clause, (∀ l ∈ c, IsFit l) → i.take (c.map .int) = .taken c none

/-- A solver that takes such literals reads a clause of them as it is. -/
theorem TakesFit.clauseOf_eq {i : Intake} (hi : i.TakesFit) {c : Clause} (h : ∀ l ∈ c, IsFit l) :
    i.clauseOf (c.map .int) = .ok c := by
  rw [clauseOf, hi c h]

end Intake

end Dialectic.Sat
