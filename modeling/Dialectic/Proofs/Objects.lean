import Dialectic.Proofs.Floats
import Dialectic.Proofs.Parts
import Dialectic.Proofs.Tokens
import Mathlib.Data.Bool.AllAny

/-!
# Values as they are read and written

What is written for a value is cut into the tokens of the value (`tokens_write`), and the machine
puts them together to the value (`run_tokensOf`). So a value that is as a text can mean it is read
as it was written, if its parts do not lie too deep in each other
(`parseWithin_write_of_isFaithful`); an object whose values have no parts is read with the pairs in
its texts joined (`parseWithin_write`). The text of a value is one line (`le_toNat_of_mem_write`).
-/

namespace Dialectic.Json

open Text (ofChars)

variable {rest : Text} {t : Token} {v : Json} {items : List Json} {fields : List (Text × Json)}
  {limit : Nat}

/-! ## Values that are read as they are written -/

/-- Whether a value is as a text can mean it, and its text is read: it is regular, and no integer
has too many digits. -/
structure IsFaithful (v : Json) : Prop where
  regular : v.isRegular
  writable : v.isWritable

theorem isFaithful_arr : IsFaithful (.arr items) ↔ ∀ v ∈ items, IsFaithful v := by
  constructor
  · intro h v hv
    exact ⟨isRegular_arr.1 h.regular v hv, isWritable_arr.1 h.writable v hv⟩
  · intro h
    exact ⟨isRegular_arr.2 fun v hv => (h v hv).regular, isWritable_arr.2 fun v hv =>
      (h v hv).writable⟩

theorem isFaithful_obj : IsFaithful (.obj fields) ↔
    (fields.map (·.1)).Nodup ∧ ∀ f ∈ fields, f.1.joined = f.1 ∧ IsFaithful f.2 := by
  constructor
  · intro h
    obtain ⟨hnodup, hfields⟩ := isRegular_obj.1 h.regular
    exact ⟨hnodup, fun f hf =>
      ⟨(hfields f hf).1, (hfields f hf).2, isWritable_obj.1 h.writable f hf⟩⟩
  · rintro ⟨hnodup, hfields⟩
    exact ⟨isRegular_obj.2 ⟨hnodup, fun f hf => ⟨(hfields f hf).1, (hfields f hf).2.regular⟩⟩,
      isWritable_obj.2 fun f hf => (hfields f hf).2.writable⟩

/-- A text of a value without parts is read as it is written. -/
theorem scanScalar_write_of_isFaithful (hv : IsFaithful v) (harr : ∀ items, v ≠ .arr items)
    (hobj : ∀ fields, v ≠ .obj fields) (hrest : Ends rest) :
    scanScalar (ofChars v.write ++ rest) = some (.scalar v, rest) := by
  cases v with
  | arr items => exact absurd rfl (harr items)
  | obj fields => exact absurd rfl (hobj fields)
  | str s =>
    have hjoined : s.joined = s := of_decide_eq_true hv.regular
    rw [scanScalar_write rfl hrest, joined, hjoined]
  | float x => exact scanScalar_write (readsBack_eq_true x) hrest
  | int n => exact scanScalar_write hv.writable hrest
  | null => exact scanScalar_write rfl hrest
  | bool b => exact scanScalar_write rfl hrest

/-! ## Tokens of values -/

mutual

/-- The tokens of a value. -/
def tokensOf : Json → List Token
  | .arr items => .openArr :: (tokensOfItems items ++ [.closeArr])
  | .obj fields => .openObj :: (tokensOfFields fields ++ [.closeObj])
  | v => [.scalar v]

/-- The tokens of the items of a list. -/
def tokensOfItems : List Json → List Token
  | [] => []
  | [v] => v.tokensOf
  | v :: rest => v.tokensOf ++ .comma :: tokensOfItems rest

/-- The tokens of the fields of an object. -/
def tokensOfFields : List (Text × Json) → List Token
  | [] => []
  | [(k, v)] => .scalar (.str k) :: .colon :: v.tokensOf
  | (k, v) :: rest => .scalar (.str k) :: .colon :: (v.tokensOf ++ .comma :: tokensOfFields rest)

end

/-- Whether what is written for a value is cut into the tokens of the value, whatever mark or blank
follows it. -/
def IsCut (v : Json) : Prop :=
  ∀ rest, Ends rest → tokens (ofChars v.write ++ rest) = v.tokensOf ++ tokens rest

/-- The items of a list are cut into their tokens one by one, with a comma between them. -/
theorem tokens_writeItems (h : ∀ v ∈ items, IsCut v) (hrest : Ends rest) :
    tokens (ofChars (commaSeparated (writeItems items)) ++ rest) =
      tokensOfItems items ++ tokens rest := by
  induction items with
  | nil => rfl
  | cons v items ih =>
    rw [List.forall_mem_cons] at h
    have ih := ih h.2
    cases items with
    | nil => exact h.1 rest hrest
    | cons w items =>
      have htext : ofChars (commaSeparated (writeItems (v :: w :: items))) ++ rest =
          ofChars v.write ++ .char ',' :: .char ' ' ::
            (ofChars (commaSeparated (writeItems (w :: items))) ++ rest) := by
        simp [writeItems, commaSeparated]
      rw [htext, h.1 _ (ends_cons (by decide)), tokens_of_mark? (t := .comma) rfl,
        tokens_of_isSpace (by decide), ih]
      simp [tokensOfItems]

/-- A field is cut into its key, a colon and the tokens of its value. -/
theorem tokens_writeField {k : Text} (hk : k.joined = k) (hv : IsCut v) (hrest : Ends rest) :
    tokens (ofChars (writeString k ++ ':' :: ' ' :: v.write) ++ rest) =
      .scalar (.str k) :: .colon :: (v.tokensOf ++ tokens rest) := by
  have hcolon : Ends (.char ':' :: .char ' ' :: (ofChars v.write ++ rest)) := ends_cons (by decide)
  have hkey := scanScalar_write (v := .str k) rfl hcolon
  simp only [write, joined, hk] at hkey
  rw [Text.ofChars_append, List.append_assoc, Text.ofChars_cons, Text.ofChars_cons,
    List.cons_append, List.cons_append, tokens_of_scanScalar hkey,
    tokens_of_mark? (t := .colon) rfl, tokens_of_isSpace (by decide), hv rest hrest]

/-- The fields of an object are cut one by one too. -/
theorem tokens_writeFields (h : ∀ f ∈ fields, f.1.joined = f.1 ∧ IsCut f.2) (hrest : Ends rest) :
    tokens (ofChars (commaSeparated (writeFields fields)) ++ rest) =
      tokensOfFields fields ++ tokens rest := by
  induction fields with
  | nil => rfl
  | cons f fields ih =>
    obtain ⟨k, v⟩ := f
    rw [List.forall_mem_cons] at h
    obtain ⟨⟨hk, hv⟩, hfields⟩ := h
    have ih := ih hfields
    cases fields with
    | nil => exact tokens_writeField hk hv hrest
    | cons g fields =>
      have htext : ofChars (commaSeparated (writeFields ((k, v) :: g :: fields))) ++ rest =
          ofChars (writeString k ++ ':' :: ' ' :: v.write) ++
            .char ',' :: .char ' ' ::
              (ofChars (commaSeparated (writeFields (g :: fields))) ++ rest) := by
        simp [writeFields, commaSeparated]
      rw [htext, tokens_writeField hk hv (ends_cons (by decide)), tokens_of_mark? (t := .comma) rfl,
        tokens_of_isSpace (by decide), ih]
      simp [tokensOfFields]

/-- **Cutting.** What is written for a value is cut into its tokens. -/
theorem tokens_write (hv : IsFaithful v) : IsCut v := by
  induction v with
  | arr items ih =>
    intro rest hrest
    have hcut : ∀ v ∈ items, IsCut v := fun v hv' => ih v hv' (isFaithful_arr.1 hv v hv')
    have hclose : tokens (ofChars [']'] ++ rest) = .closeArr :: tokens rest := tokens_of_mark? rfl
    have hends : Ends (ofChars [']'] ++ rest) := ends_cons (by decide)
    rw [write, Text.ofChars_append, Text.ofChars_cons, List.cons_append, List.cons_append,
      tokens_of_mark? (t := .openArr) rfl, List.append_assoc, tokens_writeItems hcut hends, hclose,
      tokensOf]
    simp
  | obj fields ih =>
    intro rest hrest
    have hcut : ∀ f ∈ fields, f.1.joined = f.1 ∧ IsCut f.2 := fun f hf =>
      ⟨((isFaithful_obj.1 hv).2 f hf).1, ih f hf ((isFaithful_obj.1 hv).2 f hf).2⟩
    have hclose : tokens (ofChars ['\x7d'] ++ rest) = .closeObj :: tokens rest :=
      tokens_of_mark? rfl
    have hends : Ends (ofChars ['\x7d'] ++ rest) := ends_cons (by decide)
    rw [write, Text.ofChars_append, Text.ofChars_cons, List.cons_append, List.cons_append,
      tokens_of_mark? (t := .openObj) rfl, List.append_assoc, tokens_writeFields hcut hends, hclose,
      tokensOf]
    simp
  | _ => exact fun rest hrest =>
    tokens_of_scanScalar (scanScalar_write_of_isFaithful hv (by simp) (by simp) hrest)

/-! ## Putting together -/

/-- A new key comes last. -/
theorem insert_of_not_mem {before : List (Text × Json)} {k : Text} (v : Json)
    (h : k ∉ before.map (·.1)) : Assoc.insert before k v = before ++ [(k, v)] := by
  induction before with
  | nil => rfl
  | cons f before ih =>
    simp only [List.map_cons, List.mem_cons, not_or] at h
    rw [Assoc.insert, if_neg (Ne.symm h.1), ih h.2, List.cons_append]

theorem run_cons {limit : Nat} {r r' : Reading} {ts : List Token} (h : r.step limit t = .ok r') :
    r.run limit (t :: ts) = r'.run limit ts := by
  rw [Reading.run, List.foldlM_cons, h]
  rfl

/-- Whether the machine, where a value is due that may be nested as deep as a value is, puts the
tokens of the value together. -/
def IsBuilt (limit depth : Nat) (v : Json) : Prop :=
  ∀ (stack : List Frame) (ts : List Token), stack.length = depth →
    (Reading.value stack).run limit (v.tokensOf ++ ts) = (Reading.close v stack).run limit ts

/-- Reading the tokens of items puts the items behind those that are there. -/
theorem run_tokensOfItems (hne : items ≠ []) {stack : List Frame}
    (h : ∀ v ∈ items, IsBuilt limit (stack.length + 1) v) (before : List Json) (ts : List Token) :
    (Reading.value (.item before :: stack)).run limit (tokensOfItems items ++ ts) =
      (Reading.afterItem (items.reverse ++ before) stack).run limit ts := by
  induction items generalizing before with
  | nil => exact absurd rfl hne
  | cons v items ih =>
    rw [List.forall_mem_cons] at h
    have ih := fun hne => ih hne h.2
    cases items with
    | nil => exact h.1 (.item before :: stack) ts rfl
    | cons w items =>
      rw [tokensOfItems, List.append_assoc, h.1 (.item before :: stack) _ rfl, List.cons_append,
        Reading.close, run_cons rfl, ih (by simp)]
      · simp
      · simp

/-- Reading the tokens of fields does the same, as long as no key comes again. -/
theorem run_tokensOfFields (hne : fields ≠ []) {stack : List Frame}
    (h : ∀ f ∈ fields, IsBuilt limit (stack.length + 1) f.2) (before : List (Text × Json))
    (hkeys : ((before ++ fields).map (·.1)).Nodup) (ts : List Token) :
    (Reading.nextKey before stack).run limit (tokensOfFields fields ++ ts) =
      (Reading.afterField (before ++ fields) stack).run limit ts := by
  induction fields generalizing before with
  | nil => exact absurd rfl hne
  | cons f fields ih =>
    obtain ⟨k, v⟩ := f
    rw [List.forall_mem_cons] at h
    have ih := fun hne => ih hne h.2
    have hk : k ∉ before.map (·.1) := by
      rw [List.map_append, List.nodup_append] at hkeys
      exact fun hk => hkeys.2.2 k hk k (by simp) rfl
    have hvalue : Reading.close v (.field before k :: stack) =
        .afterField (before ++ [(k, v)]) stack := by
      rw [Reading.close, insert_of_not_mem v hk]
    cases fields with
    | nil =>
      -- A name, a colon and a value make a field.
      rw [tokensOfFields, List.cons_append, List.cons_append, run_cons rfl, run_cons rfl,
        h.1 (.field before k :: stack) ts rfl, hvalue]
    | cons g fields =>
      rw [tokensOfFields, List.cons_append, List.cons_append, List.append_assoc, run_cons rfl,
        run_cons rfl, h.1 (.field before k :: stack) _ rfl, hvalue, List.cons_append, run_cons rfl,
        ih (by simp) (before ++ [(k, v)]) (by simpa using hkeys)]
      · simp
      · simp

/-- No value begins with the end of a list. -/
theorem exists_tokensOf_eq (v : Json) :
    ∃ t ts, v.tokensOf = t :: ts ∧ ∀ (stack : List Frame) (more : List Token),
    (Reading.firstItem stack).run limit (t :: more) =
      (Reading.value (.item [] :: stack)).run limit (t :: more) := by
  cases v with
  | arr items => exact ⟨_, _, rfl, fun _ _ => rfl⟩
  | obj fields => exact ⟨_, _, rfl, fun _ _ => rfl⟩
  | _ => exact ⟨_, _, rfl, fun _ _ => rfl⟩

/-- The first item of a list is read like any value. -/
theorem run_firstItem (hne : items ≠ []) (stack : List Frame) (ts : List Token) :
    (Reading.firstItem stack).run limit (tokensOfItems items ++ ts) =
      (Reading.value (.item [] :: stack)).run limit (tokensOfItems items ++ ts) := by
  match items with
  | [v] =>
    obtain ⟨t, more, heq, hrun⟩ := @exists_tokensOf_eq limit v
    rw [tokensOfItems, heq]
    exact hrun stack _
  | v :: w :: items =>
    obtain ⟨t, more, heq, hrun⟩ := @exists_tokensOf_eq limit v
    rw [tokensOfItems, heq]
    exact hrun stack _
    simp

/-- The first name of an object is read like the next one. -/
theorem run_firstKey (hne : fields ≠ []) (stack : List Frame) (ts : List Token) :
    (Reading.firstKey stack).run limit (tokensOfFields fields ++ ts) =
      (Reading.nextKey [] stack).run limit (tokensOfFields fields ++ ts) := by
  match fields with
  | [(k, v)] => rfl
  | (k, v) :: g :: fields => rfl

/-- **Putting together.** Where a value is due and may be nested deep enough, the machine puts the
tokens of a value together. -/
theorem run_tokensOf {depth : Nat} (hv : v.isRegular) (hdepth : depth + v.depth ≤ limit) :
    IsBuilt limit depth v := by
  induction v generalizing depth with
  | arr items ih =>
    rintro stack ts rfl
    have hopen : stack.length + 1 ≤ limit := by
      rw [Json.depth] at hdepth
      omega
    have hitems : ∀ v ∈ items, IsBuilt limit (stack.length + 1) v := by
      have hle : (arr items).depth ≤ limit - (stack.length + 1) + 1 := by omega
      intro v hmem
      have := depth_arr_le.1 hle v hmem
      exact ih v hmem (isRegular_arr.1 hv v hmem) (by omega)
    have hstep : (Reading.value stack).step limit .openArr = .ok (.firstItem stack) := by
      rw [Reading.step, Reading.start, if_pos (by omega)]
    rw [tokensOf, List.cons_append, List.append_assoc, run_cons hstep]
    by_cases hne : items = []
    · rw [hne]
      exact run_cons rfl
    · rw [run_firstItem hne, run_tokensOfItems hne hitems, List.singleton_append, run_cons rfl,
        List.append_nil, List.reverse_reverse]
  | obj fields ih =>
    rintro stack ts rfl
    obtain ⟨hnodup, hregular⟩ := isRegular_obj.1 hv
    have hopen : stack.length + 1 ≤ limit := by
      rw [Json.depth] at hdepth
      omega
    have hfields : ∀ f ∈ fields, IsBuilt limit (stack.length + 1) f.2 := by
      have hle : (obj fields).depth ≤ limit - (stack.length + 1) + 1 := by omega
      intro f hmem
      have := depth_obj_le.1 hle f hmem
      exact ih f hmem (hregular f hmem).2 (by omega)
    have hstep : (Reading.value stack).step limit .openObj = .ok (.firstKey stack) := by
      rw [Reading.step, Reading.start, if_pos (by omega)]
    rw [tokensOf, List.cons_append, List.append_assoc, run_cons hstep]
    by_cases hne : fields = []
    · rw [hne]
      exact run_cons rfl
    · rw [run_firstKey hne, run_tokensOfFields hne hfields [] hnodup, List.singleton_append,
        run_cons rfl, List.nil_append]
  | _ => exact fun stack ts _ => run_cons rfl

/-- **Values.** What is written for a value that a text can mean is read as the value, if not too
many lists and objects lie in each other. -/
theorem parseWithin_write_of_isFaithful (hv : IsFaithful v) (hdepth : v.depth ≤ limit) :
    parseWithin limit (ofChars v.write) = .ok v := by
  have htokens := tokens_write hv [] (by simp [Ends])
  have hrun := run_tokensOf hv.regular (show 0 + v.depth ≤ limit by omega) [] [] rfl
  rw [tokens_nil, List.append_nil, List.append_nil] at htokens
  rw [List.append_nil] at hrun
  rw [parseWithin, htokens, hrun]
  rfl

/-- A number of too many digits is not read. -/
theorem parseWithin_overlong {digits : List Char} (hdigits : ∀ c ∈ digits, c.isDigit)
    (hhead : digits.head? ≠ some '0') (hlength : Integer.digitLimit < digits.length) :
    parseWithin limit (ofChars digits) = .error (.limit (.digits (.reading digits.length))) := by
  obtain ⟨c, cs, rfl⟩ := List.exists_cons_of_length_pos (Nat.zero_lt_of_lt hlength)
  have hwhole : takeWhole (ofChars (c :: cs)) =
      ((c :: cs).map fun c => c.toNat - '0'.toNat, []) := by
    rw [← List.append_nil (ofChars (c :: cs))]
    exact takeWhole_ofChars_append hdigits (.inr hhead) (by simp) (by simp)
  have hnumber : scanNumber false (ofChars (c :: cs)) = some (.overlong (c :: cs).length, []) := by
    simp only [scanNumber, hwhole]
    rw [if_neg (by simp), if_pos (by simp [takeFraction, takeExponent]), integerToken,
      if_pos (by simpa using hlength), List.length_map]
    rfl
  have hscan : scanScalar (ofChars (c :: cs)) = some (.overlong (c :: cs).length, []) := by
    rw [← hnumber, Text.ofChars_cons, scanScalar_of_isDigit (hdigits c (by simp))]
  rw [parseWithin, tokens_of_scanScalar hscan, tokens_nil]
  rfl

/-! ## Objects with pairs in their texts -/

/-- Fields with values in which the pairs are joined. -/
def joinedFields (fields : List (Text × Json)) : List (Text × Json) :=
  fields.map fun f => (f.1, f.2.joined)

/-- Whether the names and values of fields are read as they are written, but for pairs in the
values. -/
def AreLegible (fields : List (Text × Json)) : Prop :=
  ∀ f ∈ fields, f.1.joined = f.1 ∧ f.2.isLegible

/-- An object is written like the object with the pairs in its texts joined. -/
theorem write_joinedFields (fields : List (Text × Json)) :
    write (.obj (joinedFields fields)) = write (.obj fields) := by
  have hfields : (joinedFields fields).map writeField = fields.map writeField := by
    rw [joinedFields, List.map_map]
    refine List.map_congr_left fun f _ => ?_
    rw [Function.comp, writeField, writeField, write_joined]
  rw [write, write, writeFields_eq_map, writeFields_eq_map, hfields]

/-- Whether a value is a list or an object. -/
def hasParts : Json → Bool
  | .arr _ => true
  | .obj _ => true
  | _ => false

theorem depth_eq_zero (h : v.hasParts = false) : v.depth = 0 := by
  cases v with
  | arr items => exact absurd h (by simp [hasParts])
  | obj fields => exact absurd h (by simp [hasParts])
  | _ => rfl

/-- The text of a value without parts is read unless it is an integer with too many digits. -/
theorem isLegible_iff : v.isLegible ↔ v.hasParts = false ∧ v.isWritable := by
  cases v with
  | float x => exact ⟨fun _ => ⟨rfl, rfl⟩, fun _ => readsBack_eq_true x⟩
  | _ => simp [isLegible, hasParts, isWritable]

/-- A regular value has no pair that could be joined. -/
theorem joined_of_isRegular (h : v.isRegular) : v.joined = v := by
  cases v with
  | str t => exact congrArg _ (of_decide_eq_true h)
  | _ => rfl

/-- A legible value comes back once its pairs are joined, and it has no parts. -/
theorem isFaithful_joined (h : v.isLegible) : IsFaithful v.joined ∧ v.joined.depth = 0 := by
  cases v with
  | str t => exact ⟨⟨decide_eq_true t.joined_joined, rfl⟩, rfl⟩
  | int n => exact ⟨⟨rfl, h⟩, rfl⟩
  | arr items => exact absurd h Bool.false_ne_true
  | obj fields => exact absurd h Bool.false_ne_true
  | _ => exact ⟨⟨rfl, rfl⟩, rfl⟩

/-- **Objects.** What is written for an object whose values have no parts is read as the object with
the pairs in its texts joined. -/
theorem parseWithin_write (hlimit : 0 < limit) (h : AreLegible fields)
    (hkeys : (fields.map (·.1)).Nodup) :
    parseWithin limit (ofChars (write (.obj fields))) = .ok (.obj (joinedFields fields)) := by
  have hnames : (joinedFields fields).map (·.1) = fields.map (·.1) := by
    rw [joinedFields, List.map_map]
    rfl
  have hfaithful : IsFaithful (.obj (joinedFields fields)) := by
    refine isFaithful_obj.2 ⟨by rwa [hnames], List.forall_mem_map.2 fun f hf => ?_⟩
    exact ⟨(h f hf).1, (isFaithful_joined (h f hf).2).1⟩
  have hdepth : (obj (joinedFields fields)).depth ≤ 0 + 1 :=
    depth_obj_le.2 (List.forall_mem_map.2 fun f hf => (isFaithful_joined (h f hf).2).2.le)
  rw [← write_joinedFields]
  exact parseWithin_write_of_isFaithful hfaithful (hdepth.trans hlimit)

/-! ## One line -/

/-- The digits of a number in a base up to sixteen are printed. -/
theorem le_toNat_of_mem_toDigits {b n : Nat} (hb : 1 < b) (hb' : b ≤ 16) {c : Char}
    (h : c ∈ Nat.toDigits b n) : 32 ≤ c.toNat := by
  have hdigit : ∀ d < 16, 32 ≤ (Nat.digitChar d).toNat := by decide
  induction n using Nat.strongRecOn with
  | ind n ih =>
    by_cases hn : n < b
    · rw [Nat.toDigits_of_lt_base hn, List.mem_singleton] at h
      rw [h]
      exact hdigit n (by omega)
    · rw [Nat.toDigits_of_base_le hb (by omega), List.mem_append, List.mem_singleton] at h
      rcases h with h | rfl
      · exact ih (n / b) (Nat.div_lt_self (by omega) hb) h
      · have := Nat.mod_lt n (show 0 < b by omega)
        exact hdigit _ (by omega)

theorem le_toNat_of_isDigit {c : Char} (h : c.isDigit) : 32 ≤ c.toNat := by
  have hle : '0'.toNat ≤ c.toNat := (isDigit_iff.1 h).1
  exact Nat.le_trans (by decide) hle

/-- An escaped unit has no control characters. -/
theorem le_toNat_of_mem_escapeUnit {n : Nat} {c : Char} (h : c ∈ escapeUnit n) : 32 ≤ c.toNat := by
  simp only [escapeUnit, Text.hex, List.mem_cons, List.mem_append, List.mem_replicate] at h
  rcases h with rfl | rfl | ⟨-, rfl⟩ | h
  · decide
  · decide
  · decide
  · exact le_toNat_of_mem_toDigits (by decide) (by decide) h

theorem le_toNat_of_mem_escapePoint {p : CodePoint} {c : Char} (h : c ∈ escapePoint p) :
    32 ≤ c.toNat := by
  cases p with
  | surrogate u => exact le_toNat_of_mem_escapeUnit h
  | char d =>
    have hescaped := escaped_escapeChar d
    rw [escapePoint_char] at h
    generalize escapeChar d = cs at hescaped h
    cases hescaped with
    | short e he hshort =>
      have hmark : 32 ≤ e.toNat := by
        unfold shortEscape? at hshort
        split at hshort <;> first | decide | exact absurd hshort (by simp)
      simp only [List.mem_cons, List.not_mem_nil, or_false] at h
      rcases h with rfl | rfl
      · decide
      · exact hmark
    | plain hplain hquote =>
      rw [List.mem_singleton.1 h]
      simp only [isPlain, Bool.and_eq_true, decide_eq_true_eq] at hplain
      exact hplain.1
    | unit hunit => exact le_toNat_of_mem_escapeUnit h
    | pair n m hn hm hpair =>
      rcases List.mem_append.1 h with h | h <;> exact le_toNat_of_mem_escapeUnit h

/-- Neither has a string as it is written. -/
theorem le_toNat_of_mem_writeString {t : Text} {c : Char} (h : c ∈ writeString t) :
    32 ≤ c.toNat := by
  simp only [writeString, List.cons_append, List.mem_cons, List.mem_append, List.mem_flatMap,
    List.not_mem_nil, or_false] at h
  rcases h with rfl | ⟨p, -, h⟩ | rfl
  · decide
  · exact le_toNat_of_mem_escapePoint h
  · decide

theorem le_toNat_of_mem_commaSeparated {parts : List (List Char)}
    (h : ∀ t ∈ parts, ∀ c ∈ t, 32 ≤ c.toNat) : ∀ c ∈ commaSeparated parts, 32 ≤ c.toNat := by
  match parts with
  | [] => simp [commaSeparated]
  | [t] => simpa [commaSeparated] using h
  | t :: u :: rest =>
    rw [List.forall_mem_cons] at h
    rw [commaSeparated, List.forall_mem_append, List.forall_mem_cons, List.forall_mem_cons]
    · exact ⟨h.1, by decide, by decide, le_toNat_of_mem_commaSeparated h.2⟩
    · simp

/-- **One line.** What is written for a value has no control characters. -/
theorem le_toNat_of_mem_write (v : Json) : ∀ c ∈ v.write, 32 ≤ c.toNat := by
  induction v with
  | null => exact List.all_iff_forall_prop.1 rfl
  | bool b => cases b <;> exact List.all_iff_forall_prop.1 rfl
  | int n =>
    intro c hc
    rcases isDigit_or_of_mem_write_int hc with hdigit | rfl
    · exact le_toNat_of_isDigit hdigit
    · decide
  | float x =>
    exact forall_mem_write_float (fun c => le_toNat_of_isDigit) (List.all_iff_forall_prop.1 rfl)
      (List.all_iff_forall_prop.1 rfl) (List.all_iff_forall_prop.1 rfl) x
  | str t => exact fun c hc => le_toNat_of_mem_writeString hc
  | arr items ih =>
    have hparts : ∀ t ∈ writeItems items, ∀ c ∈ t, 32 ≤ c.toNat := by
      rw [writeItems_eq_map, List.forall_mem_map]
      exact ih
    rw [write, List.cons_append, List.forall_mem_cons, List.forall_mem_append]
    exact ⟨by decide, le_toNat_of_mem_commaSeparated hparts, List.all_iff_forall_prop.1 rfl⟩
  | obj fields ih =>
    have hparts : ∀ t ∈ writeFields fields, ∀ c ∈ t, 32 ≤ c.toNat := by
      rw [writeFields_eq_map, List.forall_mem_map]
      intro f hf
      rw [writeField, List.forall_mem_append, List.forall_mem_cons, List.forall_mem_cons]
      exact ⟨fun c hc => le_toNat_of_mem_writeString hc, by decide, by decide, ih f hf⟩
    rw [write, List.cons_append, List.forall_mem_cons, List.forall_mem_append]
    exact ⟨by decide, le_toNat_of_mem_commaSeparated hparts, List.all_iff_forall_prop.1 rfl⟩

end Dialectic.Json
