import Dialectic.Proofs.Objects
import Dialectic.Proofs.Outcome

/-!
# What a text can mean

A text without surrogates means a value that is regular and can be written, with no more lists and
objects in each other than the reader allows (`fits_of_parseWithin`): the tokens without parts are
so (`isFine_of_mem_tokens`), and the machine keeps it (`Reading.IsFitting`). So what was read is
read again when it is written (`parseWithin_write_of_parseWithin`).
-/

namespace Dialectic

/-! ## Digits -/

namespace Text

/-- A digit is below ten. -/
theorem asciiDigit?_lt {c : Char} {d : Nat} (h : asciiDigit? c = some d) : d < 10 := by
  unfold asciiDigit? at h
  split at h
  · rename_i hc
    have hle : c.toNat ≤ '9'.toNat := hc.2
    have hnine : '9'.toNat = 57 := rfl
    obtain rfl := Option.some.inj h
    omega
  · simp at h

/-- Digits write a number that has no more digits. -/
theorem ofDigits_lt {ds : List Nat} (h : ∀ d ∈ ds, d < 10) : ofDigits ds < 10 ^ ds.length := by
  induction ds using List.reverseRecOn with
  | nil => simp [ofDigits]
  | append_singleton ds d ih =>
    rw [List.forall_mem_append, List.forall_mem_singleton] at h
    have := ih h.1
    rw [ofDigits_append_singleton, List.length_append, List.length_singleton, Nat.pow_succ]
    omega

/-- Characters are no surrogates. -/
theorem surrogate_not_mem_ofChars (cs : List Char) (u : Fin 2048) : .surrogate u ∉ ofChars cs := by
  simp [ofChars]

end Text

namespace Json

open Text (ofChars)

variable {cs rest : Text} {t : Token} {v : Json} {limit : Nat}

/-! ## What follows what was read -/

/-- What is left after the digits is an end of the text. -/
theorem takeDigits_suffix (cs : Text) : (takeDigits cs).2 <:+ cs := by
  induction cs with
  | nil => exact List.suffix_refl _
  | cons p cs ih =>
    rw [takeDigits]
    split
    · exact ih.trans (List.suffix_cons ..)
    · exact List.suffix_refl _

theorem takeFraction_suffix (cs : Text) : (takeFraction cs).2 <:+ cs := by
  unfold takeFraction
  split
  · rename_i rest
    have hdigits := takeDigits_suffix rest
    split
    · exact List.suffix_refl _
    · rename_i heq
      rw [heq] at hdigits
      exact hdigits.trans (List.suffix_cons ..)
  · exact List.suffix_refl _

theorem takeSign_suffix (cs : Text) : (takeSign cs).2 <:+ cs := by
  unfold takeSign
  split
  · exact List.suffix_cons ..
  · exact List.suffix_cons ..
  · exact List.suffix_refl _

theorem takeExponent_suffix (cs : Text) : (takeExponent cs).2 <:+ cs := by
  unfold takeExponent
  split
  · rename_i p rest
    have hdigits := (takeDigits_suffix (takeSign rest).2).trans (takeSign_suffix rest)
    split
    · split
      · exact List.suffix_refl _
      · rename_i heq
        rw [heq] at hdigits
        exact hdigits.trans (List.suffix_cons ..)
    · exact List.suffix_refl _
  · exact List.suffix_refl _

theorem takeWhole_suffix (cs : Text) : (takeWhole cs).2 <:+ cs := by
  unfold takeWhole
  split
  · exact List.suffix_cons ..
  · exact takeDigits_suffix cs

/-- What is left after a number is an end of the text. -/
theorem scanNumber_suffix {negative : Bool} (h : scanNumber negative cs = some (t, rest)) :
    rest <:+ cs := by
  have hsuffix : (takeExponent (takeFraction (takeWhole cs).2).2).2 <:+ cs :=
    ((takeExponent_suffix _).trans (takeFraction_suffix _)).trans (takeWhole_suffix _)
  simp only [scanNumber] at h
  split at h
  · simp at h
  · split at h <;> exact (Prod.mk.inj (Option.some.inj h)).2 ▸ hsuffix

theorem after?_suffix {w : List Char} (h : after? w cs = some rest) : rest <:+ cs := by
  fun_induction after? w cs with
  | case1 cs => exact Option.some.inj h ▸ List.suffix_refl _
  | case2 w cs c ih => exact (ih h).trans (List.suffix_cons ..)
  | case3 => simp at h
  | case4 => simp at h

/-- A word that is read is one of the given ones, and what is left is an end of the text. -/
theorem scanWord_eq_some {ws : List (List Char × Json)} (h : scanWord cs ws = some (v, rest)) :
    rest <:+ cs ∧ ∃ w, (w, v) ∈ ws := by
  induction ws with
  | nil => simp [scanWord] at h
  | cons w ws ih =>
    rw [scanWord] at h
    split at h
    · rename_i hafter
      obtain ⟨rfl, rfl⟩ := Prod.mk.inj (Option.some.inj h)
      exact ⟨after?_suffix hafter, w.1, List.mem_cons_self ..⟩
    · obtain ⟨hsuffix, u, hu⟩ := ih h
      exact ⟨hsuffix, u, List.mem_cons_of_mem _ hu⟩

/-- What is left after a string is an end of the text. -/
theorem Scans.suffix {done : Text} {r : Text × Text} (h : Scans done cs r) : r.2 <:+ cs := by
  induction h with
  | quote done rest => exact List.suffix_cons ..
  | next heq _ _ ih => exact heq ▸ ih.trans (List.suffix_append ..)

/-! ## Values without parts -/

/-- Whether a token, if it is a value, is regular and can be written, and has no parts. -/
def Token.IsFine : Token → Prop
  | .scalar v => v.isRegular ∧ v.isWritable ∧ v.depth = 0
  | _ => True

theorem isFine_of_mem_words : ∀ w ∈ words, (Token.scalar w.2).IsFine := by
  simp only [words, List.forall_mem_cons]
  exact ⟨⟨rfl, rfl, rfl⟩, ⟨rfl, rfl, rfl⟩, ⟨rfl, rfl, rfl⟩, ⟨rfl, rfl, rfl⟩, ⟨rfl, rfl, rfl⟩,
    ⟨rfl, rfl, rfl⟩, by simp⟩

theorem lt_of_mem_takeDigits : ∀ d ∈ (takeDigits cs).1, d < 10 := by
  induction cs with
  | nil => simp [takeDigits]
  | cons p cs ih =>
    rw [takeDigits]
    split
    · rename_i d hd
      refine List.forall_mem_cons.2 ⟨?_, ih⟩
      cases p with
      | char c => exact Text.asciiDigit?_lt hd
      | surrogate u => simp [digit?] at hd
    · simp

theorem lt_of_mem_takeWhole : ∀ d ∈ (takeWhole cs).1, d < 10 := by
  unfold takeWhole
  split
  · simp
  · exact lt_of_mem_takeDigits

/-- A whole number that is read is a fine token: it has no more digits than can be written. -/
theorem isFine_integerToken {ds : List Nat} (hds : ∀ d ∈ ds, d < 10) (negative : Bool) :
    (integerToken negative ds).IsFine := by
  unfold integerToken
  split
  · exact trivial
  · rename_i hlength
    refine ⟨rfl, ?_, rfl⟩
    rw [isWritable, Integer.isWritable_iff]
    have hlt : Text.ofDigits ds < 10 ^ Integer.digitLimit :=
      (Text.ofDigits_lt hds).trans_le (Nat.pow_le_pow_right (by decide) (Nat.not_lt.1 hlength))
    cases negative <;> simpa using hlt

/-- Every number that is read is a fine token. -/
theorem isFine_of_scanNumber {negative : Bool} (h : scanNumber negative cs = some (t, rest)) :
    t.IsFine := by
  simp only [scanNumber] at h
  split at h
  · simp at h
  · split at h
    · exact (Prod.mk.inj (Option.some.inj h)).1 ▸ isFine_integerToken lt_of_mem_takeWhole negative
    · exact (Prod.mk.inj (Option.some.inj h)).1 ▸ ⟨rfl, rfl, rfl⟩

/-- A value without parts that is read from a text without surrogates. -/
theorem isFine_of_scanScalar (hcs : ∀ u, .surrogate u ∉ cs) (h : scanScalar cs = some (t, rest)) :
    t.IsFine ∧ rest <:+ cs := by
  unfold scanScalar at h
  split at h
  · rename_i more
    obtain ⟨⟨s, after⟩, hscan, heq⟩ := Option.map_eq_some_iff.1 h
    obtain ⟨rfl, rfl⟩ := Prod.mk.inj heq
    have hjoined := joined_of_scanString (fun u hu => hcs u (List.mem_cons_of_mem _ hu)) hscan
    exact ⟨⟨decide_eq_true hjoined, rfl, rfl⟩,
      (scans_of_scanString hscan).suffix.trans (List.suffix_cons ..)⟩
  · split at h
    · rename_i v after hword
      obtain ⟨rfl, rfl⟩ := Prod.mk.inj (Option.some.inj h)
      obtain ⟨hsuffix, w, hw⟩ := scanWord_eq_some hword
      exact ⟨isFine_of_mem_words _ hw, hsuffix⟩
    · split at h
      · exact ⟨isFine_of_scanNumber h, (scanNumber_suffix h).trans (List.suffix_cons ..)⟩
      · exact ⟨isFine_of_scanNumber h, scanNumber_suffix h⟩

/-- All tokens of a text without surrogates are fine: a string in it has no pair left to join. -/
theorem isFine_of_mem_tokens (hcs : ∀ u, .surrogate u ∉ cs) : ∀ t ∈ tokens cs, t.IsFine := by
  induction cs using tokens_induction with
  | nil => simp [tokens_nil]
  | space p cs hspace ih =>
    rw [tokens_of_isSpace hspace]
    exact ih fun u hu => hcs u (List.mem_cons_of_mem _ hu)
  | mark p t cs hmark ih =>
    rw [tokens_of_mark? hmark, List.forall_mem_cons]
    refine ⟨?_, ih fun u hu => hcs u (List.mem_cons_of_mem _ hu)⟩
    unfold mark? at hmark
    split at hmark <;> first | exact Option.some.inj hmark ▸ trivial | simp at hmark
  | scalar p cs t after hspace hmark hscan ih =>
    obtain ⟨hfine, hsuffix⟩ := isFine_of_scanScalar hcs hscan
    rw [tokens_of_scanScalar hscan, List.forall_mem_cons]
    exact ⟨hfine, ih fun u hu => hcs u (hsuffix.subset hu)⟩
  | junk p cs hspace hmark hscan =>
    rw [tokens_of_none hspace hmark hscan, List.forall_mem_singleton]
    exact trivial

/-! ## What the machine keeps -/

/-- Whether a value may stand at a depth: it is regular and can be written, and no more lists and
objects lie in each other than the reader allows. -/
structure Fits (limit depth : Nat) (v : Json) : Prop where
  regular : v.isRegular
  writable : v.isWritable
  depth : depth + v.depth ≤ limit

/-- Whether the values in a list or an object that is still open may stand at a depth, and the names
of the object differ. -/
def Frame.Fits (limit depth : Nat) : Frame → Prop
  | .item before => ∀ v ∈ before, Json.Fits limit depth v
  | .field before key =>
    key.joined = key ∧ (before.map (·.1)).Nodup ∧ ∀ f ∈ before,
      f.1.joined = f.1 ∧ Json.Fits limit depth f.2

/-- Whether no more lists and objects are open than the reader allows, and their values may stand
where they do. -/
def AreFitting (limit : Nat) : List Frame → Prop
  | [] => True
  | frame :: stack =>
    stack.length + 1 ≤ limit ∧ frame.Fits limit (stack.length + 1) ∧ AreFitting limit stack

/-- The lists and objects that are still open, the last one first. -/
def Reading.frames : Reading → List Frame
  | .value stack => stack
  | .firstItem stack => .item [] :: stack
  | .afterItem items stack => .item items :: stack
  | .firstKey stack => .field [] [] :: stack
  | .nextKey fields stack => .field fields [] :: stack
  | .afterKey fields key stack => .field fields key :: stack
  | .afterField fields stack => .field fields [] :: stack
  | .complete _ => []

/-- What stays as it is as long as the machine reads. -/
structure Reading.IsFitting (limit : Nat) (r : Reading) : Prop where
  frames : AreFitting limit r.frames
  complete : ∀ v, r = .complete v → Json.Fits limit 0 v

variable {stack : List Frame} {r r' : Reading}

/-- Values that are begun inside each other are no more than the limit. -/
theorem AreFitting.length_le (h : AreFitting limit stack) : stack.length ≤ limit := by
  cases stack with
  | nil => exact Nat.zero_le _
  | cons frame stack => exact h.1

/-- A list that is closed fits where it was opened. -/
theorem fits_arr {items : List Json} (h : AreFitting limit (.item items :: stack)) :
    Fits limit stack.length (.arr items) := by
  obtain ⟨hlimit, hitems, -⟩ := h
  refine ⟨isRegular_arr.2 fun v hv => (hitems v hv).regular, isWritable_arr.2 fun v hv =>
    (hitems v hv).writable, ?_⟩
  have hdepth : (arr items).depth ≤ limit - (stack.length + 1) + 1 := depth_arr_le.2 fun v hv => by
    have := (hitems v hv).depth
    omega
  omega

/-- So does an object. -/
theorem fits_obj {fields : List (Text × Json)} {key : Text}
    (h : AreFitting limit (.field fields key :: stack)) :
    Fits limit stack.length (.obj fields) := by
  obtain ⟨hlimit, ⟨-, hnodup, hfields⟩, -⟩ := h
  refine ⟨isRegular_obj.2 ⟨hnodup, fun f hf => ⟨(hfields f hf).1, (hfields f hf).2.regular⟩⟩,
    isWritable_obj.2 fun f hf => (hfields f hf).2.writable, ?_⟩
  have hdepth : (obj fields).depth ≤ limit - (stack.length + 1) + 1 := depth_obj_le.2 fun f hf => by
    have := (hfields f hf).2.depth
    omega
  omega

/-- A value that fits where it is closed leaves a reading that fits. -/
theorem isFitting_close (hstack : AreFitting limit stack) (hv : Fits limit stack.length v) :
    (Reading.close v stack).IsFitting limit := by
  match stack with
  | [] => exact ⟨trivial, fun w hw => Reading.complete.inj hw ▸ hv⟩
  | .item before :: stack =>
    obtain ⟨hlimit, hbefore, hrest⟩ := hstack
    exact ⟨⟨hlimit, List.forall_mem_cons.2 ⟨hv, hbefore⟩, hrest⟩, by simp [Reading.close]⟩
  | .field before key :: stack =>
    obtain ⟨hlimit, ⟨hkey, hnodup, hbefore⟩, hrest⟩ := hstack
    refine ⟨⟨hlimit, ⟨rfl, Assoc.nodup_keys_insert hnodup key v, fun f hf => ?_⟩, hrest⟩,
      by simp [Reading.close]⟩
    rcases Assoc.mem_insert hf with rfl | hf
    · exact ⟨hkey, hv⟩
    · exact hbefore f hf

/-- So does a token that begins a value. -/
theorem IsFitting.start (hstack : AreFitting limit stack) (ht : t.IsFine)
    (h : Reading.start limit stack t = .ok r') : r'.IsFitting limit := by
  unfold Reading.start at h
  split at h
  · obtain rfl := Except.ok.inj h
    refine isFitting_close hstack ⟨ht.1, ht.2.1, ?_⟩
    have := hstack.length_le
    have hdepth := ht.2.2
    omega
  · simp at h
  · split at h
    · obtain rfl := Except.ok.inj h
      exact ⟨⟨by omega, by simp [Frame.Fits], hstack⟩, by simp⟩
    · simp at h
  · split at h
    · obtain rfl := Except.ok.inj h
      exact ⟨⟨by omega, ⟨rfl, List.nodup_nil, by simp⟩, hstack⟩, by simp⟩
    · simp at h
  · simp at h

/-- One token. -/
theorem Reading.IsFitting.step (hr : r.IsFitting limit) (ht : t.IsFine)
    (h : r.step limit t = .ok r') : r'.IsFitting limit := by
  have hframes := hr.frames
  unfold Reading.step at h
  split at h
  · exact IsFitting.start hframes ht h
  · exact Except.ok.inj h ▸ isFitting_close hframes.2.2 (fits_arr hframes)
  · exact IsFitting.start hframes ht h
  · exact Except.ok.inj h ▸ ⟨hframes, by simp⟩
  · rename_i items stack
    obtain ⟨hlimit, hitems, hrest⟩ := hframes
    refine Except.ok.inj h ▸ isFitting_close hrest (fits_arr ⟨hlimit, fun v hv => ?_, hrest⟩)
    exact hitems v (List.mem_reverse.1 hv)
  · exact Except.ok.inj h ▸ isFitting_close hframes.2.2 (fits_obj hframes)
  · obtain ⟨hlimit, ⟨-, hfields⟩, hrest⟩ := hframes
    exact Except.ok.inj h ▸ ⟨⟨hlimit, ⟨of_decide_eq_true ht.1, hfields⟩, hrest⟩, by simp⟩
  · obtain ⟨hlimit, ⟨-, hfields⟩, hrest⟩ := hframes
    exact Except.ok.inj h ▸ ⟨⟨hlimit, ⟨of_decide_eq_true ht.1, hfields⟩, hrest⟩, by simp⟩
  · exact Except.ok.inj h ▸ ⟨hframes, by simp⟩
  · exact Except.ok.inj h ▸ ⟨hframes, by simp⟩
  · exact Except.ok.inj h ▸ isFitting_close hframes.2.2 (fits_obj hframes)
  · simp at h

/-- All tokens in turn. -/
theorem Reading.IsFitting.run {ts : List Token} (hr : r.IsFitting limit) (hts : ∀ t ∈ ts, t.IsFine)
    (h : r.run limit ts = .ok r') : r'.IsFitting limit := by
  induction ts generalizing r with
  | nil => exact Except.ok.inj h ▸ hr
  | cons t ts ih =>
    rw [List.forall_mem_cons] at hts
    rw [Reading.run, List.foldlM_cons] at h
    obtain ⟨r₁, hstep, hrun⟩ := bind_eq_ok_iff.1 h
    exact ih (hr.step hts.1 hstep) hts.2 hrun

/-- **Meanings.** The value that a text without surrogates writes is regular and can be written, and
no more lists and objects lie in each other than the reader allows. -/
theorem fits_of_parseWithin (hcs : ∀ u, .surrogate u ∉ cs) (h : parseWithin limit cs = .ok v) :
    Fits limit 0 v := by
  obtain ⟨r, hrun, hr⟩ := bind_eq_ok_iff.1 h
  have hstart : (Reading.value []).IsFitting limit := ⟨trivial, by simp⟩
  have hfitting := hstart.run (isFine_of_mem_tokens hcs) hrun
  split at hr
  · rename_i w
    obtain rfl := Except.ok.inj hr
    exact hfitting.complete w rfl
  · simp [throw, throwThe, MonadExceptOf.throw] at hr

/-- What was read from a text is read again when it is written. -/
theorem parseWithin_write_of_parseWithin (hcs : ∀ u, .surrogate u ∉ cs)
    (h : parseWithin limit cs = .ok v) : parseWithin limit (ofChars v.write) = .ok v := by
  obtain ⟨hregular, hwritable, hdepth⟩ := fits_of_parseWithin hcs h
  exact parseWithin_write_of_isFaithful ⟨hregular, hwritable⟩ (by omega)

end Json

end Dialectic
