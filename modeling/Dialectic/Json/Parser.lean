import Dialectic.Json.Basic
import Dialectic.Number.Integer
import Dialectic.Text.Hexadecimal

/-!
# Reading JSON

A JSON text is first cut into tokens, then a stack machine puts the tokens together. Beyond the
standard the words `NaN`, `Infinity` and `-Infinity` are numbers. Of several fields of one name the
last counts, at the place of the first. A surrogate may stand inside a string, and an escape may
stand for one; only two escapes that follow each other make a pair. Integers of very many digits are
refused where they are met, and so are values that are nested more deeply than the reader allows.
-/

namespace Dialectic.Json

/-! ## Errors -/

/-- A value is beyond what can be read. -/
inductive LimitError where
  /-- An integer has too many digits. -/
  | digits (e : Integer.SizeError)
  /-- A list lies too deep inside others. -/
  | listDepth
  /-- An object lies too deep inside others. -/
  | objectDepth
  deriving DecidableEq, Repr

/-- What the error says. -/
def LimitError.message : LimitError → String
  | .digits e => e.message
  | .listDepth =>
    "maximum recursion depth exceeded while decoding a JSON array from a unicode string"
  | .objectDepth =>
    "maximum recursion depth exceeded while decoding a JSON object from a unicode string"

/-- Why a text is read as no value. -/
inductive ParseError where
  /-- It is no JSON text. -/
  | malformed
  /-- Before that, a value is beyond what can be read. -/
  | limit (e : LimitError)
  deriving DecidableEq, Repr

/-! ## Tokens -/

/-- A token: a punctuation mark, or a value without parts. What cannot be read is a last token of
its own. -/
inductive Token where
  /-- The mark that opens a list. -/
  | openArr
  /-- The mark that closes a list. -/
  | closeArr
  /-- The mark that opens an object. -/
  | openObj
  /-- The mark that closes an object. -/
  | closeObj
  /-- The mark between two items. -/
  | comma
  /-- The mark between the name and the value of a field. -/
  | colon
  /-- A value without parts. -/
  | scalar (v : Json)
  /-- An integer with too many digits. -/
  | overlong (digits : Nat)
  /-- Nothing that can be read. -/
  | junk

/-- The blanks that may stand between tokens. -/
def isSpace : CodePoint → Bool
  | .char c => c == ' ' || c == '\t' || c == '\n' || c == '\r'
  | .surrogate _ => false

/-- The token that a punctuation mark is. -/
def mark? : CodePoint → Option Token
  | .char '[' => some .openArr
  | .char ']' => some .closeArr
  | .char '{' => some .openObj
  | .char '}' => some .closeObj
  | .char ',' => some .comma
  | .char ':' => some .colon
  | _ => none

/-! ### Strings -/

/-- The value of four hexadecimal digits. -/
def unit? (a b c d : CodePoint) : Option Nat := do
  let a ← a.char? >>= Text.Hexadecimal.digit?
  let b ← b.char? >>= Text.Hexadecimal.digit?
  let c ← c.char? >>= Text.Hexadecimal.digit?
  let d ← d.char? >>= Text.Hexadecimal.digit?
  return ((a * 16 + b) * 16 + c) * 16 + d

/-- The character of a short escape. -/
def shortEscape? : Char → Option Char
  | '"' => some '"'
  | '\\' => some '\\'
  | '/' => some '/'
  | 'b' => some (Char.ofNat 8)
  | 'f' => some (Char.ofNat 12)
  | 'n' => some '\n'
  | 'r' => some '\r'
  | 't' => some '\t'
  | _ => none

/-- Whether a code point may stand unescaped inside a string. -/
def isPlain : CodePoint → Bool
  | .char c => 32 ≤ c.toNat && c != '\\'
  | .surrogate _ => true

/-- Reads a string after its opening quote; `done` holds the code points read so far, the last one
first. Gives the text and what follows the closing quote. -/
def scanString (done : Text) : Text → Option (Text × Text)
  | .char '"' :: rest => some (done.reverse, rest)
  | .char '\\' :: .char 'u' :: a :: b :: c :: d :: rest =>
    match unit? a b c d with
    | none => none
    | some n =>
      match rest with
      | .char '\\' :: .char 'u' :: e :: f :: g :: h :: after =>
        match unit? e f g h with
        | none => none
        | some m =>
          if Text.isHighUnit n && Text.isLowUnit m then scanString (.ofPair n m :: done) after
          else scanString (.ofNat n :: done) (.char '\\' :: .char 'u' :: e :: f :: g :: h :: after)
      | rest => scanString (.ofNat n :: done) rest
  | .char '\\' :: .char c :: rest =>
    match shortEscape? c with
    | some e => scanString (.char e :: done) rest
    | none => none
  | p :: rest => if isPlain p then scanString (p :: done) rest else none
  | [] => none

/-- What follows a string is shorter than what began it. -/
theorem length_of_scanString {done s cs rest : Text}
    (h : scanString done cs = some (s, rest)) :
    rest.length < cs.length := by
  fun_induction scanString done cs <;> simp_all <;> omega

/-! ### Numbers -/

/-- The value of a digit. -/
def digit? : CodePoint → Option Nat
  | .char c => Text.asciiDigit? c
  | .surrogate _ => none

/-- The leading digits of a text, as their values, and what follows them. -/
def takeDigits : Text → List Nat × Text
  | [] => ([], [])
  | c :: rest =>
    match digit? c with
    | some d =>
      let r := takeDigits rest
      (d :: r.1, r.2)
    | none => ([], c :: rest)

/-- The fraction after the digits of a number: a point and at least one digit, or nothing. -/
def takeFraction : Text → List Nat × Text
  | .char '.' :: rest =>
    match takeDigits rest with
    | ([], _) => ([], .char '.' :: rest)
    | (ds, rest) => (ds, rest)
  | cs => ([], cs)

/-- The sign that may stand before an exponent. -/
def takeSign : Text → Bool × Text
  | .char '-' :: rest => (true, rest)
  | .char '+' :: rest => (false, rest)
  | cs => (false, cs)

/-- The exponent after a number, if there is one. -/
def takeExponent (cs : Text) : Option Int × Text :=
  match cs with
  | c :: rest =>
    if c = .char 'e' ∨ c = .char 'E' then
      match takeDigits (takeSign rest).2 with
      | ([], _) => (none, cs)
      | (ds, after) =>
        let n : Int := Text.ofDigits ds
        (some (if (takeSign rest).1 then -n else n), after)
    else (none, cs)
  | [] => (none, [])

/-- Digits without a superfluous zero in front: a leading zero stands alone. -/
def takeWhole (cs : Text) : List Nat × Text :=
  match cs with
  | .char '0' :: rest => ([0], rest)
  | cs => takeDigits cs

/-- The token of an integer. -/
def integerToken (negative : Bool) (ds : List Nat) : Token :=
  if Integer.digitLimit < ds.length then .overlong ds.length
  else
    let n : Int := Text.ofDigits ds
    .scalar (.int (if negative then -n else n))

/-- Reads a number without its sign: an integer, unless a fraction or an exponent follows. -/
def scanNumber (negative : Bool) (cs : Text) : Option (Token × Text) :=
  let whole := takeWhole cs
  let fraction := takeFraction whole.2
  let exponent := takeExponent fraction.2
  if whole.1 = [] then none
  else if fraction.1 = [] ∧ exponent.1 = none then
    some (integerToken negative whole.1, exponent.2)
  else
    some (.scalar (.float (Binary64.ofDecimal negative (Text.ofDigits (whole.1 ++ fraction.1))
      (exponent.1.getD 0 - fraction.1.length))), exponent.2)

/-- What is taken and what is left have the length of the whole. -/
theorem length_takeDigits (cs : Text) :
    (takeDigits cs).1.length + (takeDigits cs).2.length = cs.length := by
  induction cs with
  | nil => rfl
  | cons c rest ih =>
    rw [takeDigits]
    split
    · simp only [List.length_cons]
      omega
    · simp

theorem length_takeFraction_le (cs : Text) : (takeFraction cs).2.length ≤ cs.length := by
  unfold takeFraction
  split
  · rename_i rest
    have := length_takeDigits rest
    split
    · simp
    · rename_i h
      rw [h] at this
      simp only [List.length_cons]
      simp only at this
      omega
  · simp

theorem length_takeSign_le (cs : Text) : (takeSign cs).2.length ≤ cs.length := by
  unfold takeSign
  split <;> simp

theorem length_takeExponent_le (cs : Text) : (takeExponent cs).2.length ≤ cs.length := by
  unfold takeExponent
  split
  · rename_i c rest
    have h₁ := length_takeSign_le rest
    have h₂ := length_takeDigits (takeSign rest).2
    split
    · split
      · simp
      · rename_i h
        rw [h] at h₂
        simp only [List.length_cons]
        simp only at h₂
        omega
    · simp
  · simp

/-- A whole part that is there takes something away. -/
theorem length_takeWhole (cs : Text) :
    (takeWhole cs).1 ≠ [] → (takeWhole cs).2.length < cs.length := by
  unfold takeWhole
  split
  · simp
  · intro h
    have h₁ := length_takeDigits cs
    have h₂ : 0 < (takeDigits cs).1.length := List.length_pos_iff.2 h
    omega

/-- What follows a number is shorter than what began it. -/
theorem length_of_scanNumber {negative : Bool} {cs rest : Text} {t : Token}
    (h : scanNumber negative cs = some (t, rest)) : rest.length < cs.length := by
  have h₂ := length_takeFraction_le (takeWhole cs).2
  have h₃ := length_takeExponent_le (takeFraction (takeWhole cs).2).2
  simp only [scanNumber] at h
  split at h
  · simp at h
  · rename_i hne
    have h₁ := length_takeWhole cs hne
    split at h <;> simp only [Option.some.injEq, Prod.mk.injEq] at h <;> rw [← h.2] <;> omega

/-! ### Words -/

/-- The words that are values. -/
def words : List (List Char × Json) :=
  [(['n', 'u', 'l', 'l'], .null),
   (['t', 'r', 'u', 'e'], .bool true),
   (['f', 'a', 'l', 's', 'e'], .bool false),
   (['N', 'a', 'N'], .float .nan),
   (['I', 'n', 'f', 'i', 'n', 'i', 't', 'y'], .float (.infinite false)),
   (['-', 'I', 'n', 'f', 'i', 'n', 'i', 't', 'y'], .float (.infinite true))]

/-- What follows a word at the beginning of a text. -/
def after? : List Char → Text → Option Text
  | [], cs => some cs
  | w :: ws, .char c :: cs => if w = c then after? ws cs else none
  | _, _ => none

/-- Reads one of the words in the list. -/
def scanWord (cs : Text) : List (List Char × Json) → Option (Json × Text)
  | [] => none
  | (w, v) :: ws =>
    match after? w cs with
    | some rest => some (v, rest)
    | none => scanWord cs ws

/-- Reads a value without parts at the beginning of a text. -/
def scanScalar (cs : Text) : Option (Token × Text) :=
  match cs with
  | .char '"' :: rest => (scanString [] rest).map fun (t, rest) => (.scalar (.str t), rest)
  | cs =>
    match scanWord cs words with
    | some (v, rest) => some (.scalar v, rest)
    | none =>
      match cs with
      | .char '-' :: rest => scanNumber true rest
      | cs => scanNumber false cs

/-- A word that is taken away leaves that much less. -/
theorem length_of_after? {w : List Char} {cs rest : Text} (h : after? w cs = some rest) :
    rest.length + w.length = cs.length := by
  fun_induction after? w cs with
  | case1 => simp_all
  | case2 ws c cs ih =>
    have := ih h
    simp only [List.length_cons]
    omega
  | case3 => simp at h
  | case4 => simp at h

/-- A word that is read takes something away. -/
theorem length_of_scanWord {cs rest : Text} {v : Json} {ws : List (List Char × Json)}
    (hws : ∀ w ∈ ws, w.1 ≠ []) (h : scanWord cs ws = some (v, rest)) : rest.length < cs.length := by
  induction ws with
  | nil => simp [scanWord] at h
  | cons w ws ih =>
    obtain ⟨w, u⟩ := w
    rw [scanWord] at h
    split at h
    · rename_i hp
      simp only [Option.some.injEq, Prod.mk.injEq] at h
      have hlen := length_of_after? hp
      have hpos : 0 < w.length := List.length_pos_iff.2 (hws (w, u) (by simp))
      rw [← h.2]
      omega
    · exact ih (fun w hw => hws w (List.mem_cons_of_mem _ hw)) h

/-- What follows a value without parts is shorter than what began it. -/
theorem length_of_scanScalar {cs rest : Text} {t : Token}
    (h : scanScalar cs = some (t, rest)) : rest.length < cs.length := by
  unfold scanScalar at h
  split at h
  · simp only [Option.map_eq_some_iff] at h
    obtain ⟨⟨s, r⟩, hs, hr⟩ := h
    simp only [Prod.mk.injEq] at hr
    have := length_of_scanString hs
    rw [← hr.2, List.length_cons]
    omega
  · split at h
    · rename_i hword
      simp only [Option.some.injEq, Prod.mk.injEq] at h
      rw [← h.2]
      exact length_of_scanWord (by decide) hword
    · split at h
      · have := length_of_scanNumber h
        rw [List.length_cons]
        omega
      · exact length_of_scanNumber h

/-- Cuts a text into tokens; `done` holds the tokens read so far, the last one first. -/
def tokensFrom (done : List Token) (cs : Text) : List Token :=
  match cs with
  | [] => done.reverse
  | c :: rest =>
    if isSpace c then tokensFrom done rest
    else
      match mark? c with
      | some t => tokensFrom (t :: done) rest
      | none =>
        match _h : scanScalar (c :: rest) with
        | some (t, after) => tokensFrom (t :: done) after
        | none => (.junk :: done).reverse
termination_by cs.length
decreasing_by
  · simp
  · simp
  · exact length_of_scanScalar ‹_›

/-- The tokens of a text. -/
def tokens (cs : Text) : List Token := tokensFrom [] cs

/-! ## Putting tokens together -/

/-- A list or an object that is still open. -/
inductive Frame where
  /-- A list with the items before the one that is due, the last one first. -/
  | item (before : List Json)
  /-- An object with the fields before the one whose value is due, and the name of that one. -/
  | field (before : List (Text × Json)) (key : Text)

/-- What the machine has read and what it waits for. -/
inductive Reading where
  /-- A value is due. -/
  | value (stack : List Frame)
  /-- The first item of a list is due, or its end. -/
  | firstItem (stack : List Frame)
  /-- A comma or the end of a list is due. -/
  | afterItem (items : List Json) (stack : List Frame)
  /-- The first name of an object is due, or its end. -/
  | firstKey (stack : List Frame)
  /-- A name is due. -/
  | nextKey (fields : List (Text × Json)) (stack : List Frame)
  /-- A colon is due. -/
  | afterKey (fields : List (Text × Json)) (key : Text) (stack : List Frame)
  /-- A comma or the end of an object is due. -/
  | afterField (fields : List (Text × Json)) (stack : List Frame)
  /-- The value is complete. -/
  | complete (v : Json)

/-- Hands a complete value to what is still open. -/
def Reading.close (v : Json) : List Frame → Reading
  | [] => .complete v
  | .item before :: stack => .afterItem (v :: before) stack
  | .field before key :: stack => .afterField (Assoc.insert before key v) stack

/-- A token where a value is due; at most the given number of lists and objects are open at one
time. -/
def Reading.start (limit : Nat) (stack : List Frame) : Token → Except ParseError Reading
  | .scalar v => .ok (close v stack)
  | .overlong digits => .error (.limit (.digits (.reading digits)))
  | .openArr => if stack.length < limit then .ok (.firstItem stack) else .error (.limit .listDepth)
  | .openObj => if stack.length < limit then .ok (.firstKey stack) else .error (.limit .objectDepth)
  | _ => .error .malformed

/-- One token. -/
def Reading.step (limit : Nat) : Reading → Token → Except ParseError Reading
  | .value stack, t => start limit stack t
  | .firstItem stack, .closeArr => .ok (close (.arr []) stack)
  | .firstItem stack, t => start limit (.item [] :: stack) t
  | .afterItem items stack, .comma => .ok (.value (.item items :: stack))
  | .afterItem items stack, .closeArr => .ok (close (.arr items.reverse) stack)
  | .firstKey stack, .closeObj => .ok (close (.obj []) stack)
  | .firstKey stack, .scalar (.str k) => .ok (.afterKey [] k stack)
  | .nextKey fields stack, .scalar (.str k) => .ok (.afterKey fields k stack)
  | .afterKey fields k stack, .colon => .ok (.value (.field fields k :: stack))
  | .afterField fields stack, .comma => .ok (.nextKey fields stack)
  | .afterField fields stack, .closeObj => .ok (close (.obj fields) stack)
  | _, _ => .error .malformed

/-- All tokens in turn. -/
def Reading.run (limit : Nat) (r : Reading) (ts : List Token) : Except ParseError Reading :=
  ts.foldlM (step limit) r

/-- The value that a text writes, if no more than the given number of lists and objects lie in each
other. -/
def parseWithin (limit : Nat) (cs : Text) : Except ParseError Json := do
  match ← Reading.run limit (.value []) (tokens cs) with
  | .complete v => return v
  | _ => throw .malformed

/-- The value that a text writes. There are never more lists and objects in each other than the text
is long. -/
def parse (cs : Text) : Except ParseError Json := parseWithin cs.length cs

end Dialectic.Json
