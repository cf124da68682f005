import Dialectic.Text.Blank
import Dialectic.Text.Digit

/-!
# Integers as text

Reading an integer: white space may stand around it, a sign before its digits, and a single
underscore between two digits, which may be of any script. Integers of very many digits are neither
read from a text nor written as one.
-/

namespace Dialectic.Integer

/-! ## The limit -/

/-- The greatest number of digits of an integer that is read or written. -/
def digitLimit : Nat := 4300

/-- An integer has too many digits. -/
inductive SizeError where
  /-- The text of an integer has this many digits. -/
  | reading (digits : Nat)
  /-- An integer is to be written. -/
  | writing
  deriving DecidableEq, Repr

/-- What the error says. -/
def SizeError.message (e : SizeError) : String :=
  "Exceeds the limit (" ++ toString digitLimit ++ " digits) for integer string conversion" ++
    (match e with
      | .reading digits => ": value has " ++ toString digits ++ " digits"
      | .writing => "") ++
    "; use sys.set_int_max_str_digits() to increase the limit"

/-! ## Writing -/

/-- Whether an integer has not too many digits to be written. -/
def isWritable (n : Int) : Bool := (Nat.toDigits 10 n.natAbs).length ≤ digitLimit

/-- An integer as text. -/
def write (n : Int) : Except SizeError (List Char) :=
  if isWritable n then .ok (toString n).toList else .error .writing

/-- An integer is written if one of at least the same size is. -/
theorem isWritable_of_natAbs_le {m n : Int} (h : m.natAbs ≤ n.natAbs) (hn : isWritable n) :
    isWritable m := by
  rw [isWritable, decide_eq_true_iff, Nat.length_toDigits_le_iff (by decide) (by decide)] at hn ⊢
  exact Nat.lt_of_le_of_lt h hn

/-! ## Reading -/

/-- Why a text is read as no integer. -/
inductive ReadError where
  /-- It writes no integer. -/
  | malformed
  /-- It has too many digits. -/
  | size (e : SizeError)
  deriving DecidableEq, Repr

/-- The values of the digits at the beginning of a text, among which single underscores may stand,
and what follows them; `between` says whether an underscore may stand at the beginning. -/
def digitsFrom? (between : Bool) : Text → Option (List Nat × Text)
  | [] => if between then some ([], []) else none
  | c :: rest =>
    if c = .char '_' then
      if between then digitsFrom? false rest else none
    else
      match c.char?.bind Text.digitValue? with
      | some d => (digitsFrom? true rest).map fun r => (d :: r.1, r.2)
      | none => if between then some ([], c :: rest) else none

/-- The number that a text of digits writes. The digits are counted before anything after them is
looked at. -/
def natural (t : Text) : Except ReadError Nat :=
  match digitsFrom? false t with
  | none => .error .malformed
  | some (ds, rest) =>
    if digitLimit < ds.length then .error (.size (.reading ds.length))
    else if rest = [] then .ok (Text.ofDigits ds)
    else .error .malformed

/-- The integer that a text writes. -/
def ofText (t : Text) : Except ReadError Int :=
  match Text.trimBy (·.is Text.isWhite) t with
  | .char '-' :: rest => (natural rest).map fun n => -(n : Int)
  | .char '+' :: rest => (natural rest).map fun n => (n : Int)
  | t => (natural t).map fun n => (n : Int)

end Dialectic.Integer
