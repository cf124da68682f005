import Dialectic.Proofs.LastLine
import Dialectic.Proofs.Returned

/-!
# Torn lines

A process that was started anew takes up the hash that it finds in a file, whatever the file holds,
and writes the line of its first entry at the end. It returns an entry unless the file is no text,
or a line that is beyond the limits comes, from the end of the file, before one with a hash
(`exists_submit_fresh_iff`). The entry is read back exactly if no more than blanks stood open on the
last line (`recent_submit_fresh_iff`); the rest of a line that was torn makes it unreadable.
-/

namespace Dialectic.Audit

open Json (joinedFields)
open Text (ofChars)

variable {d : Directory} {path : String} {time : Instant} {q : Query} {previous v : Json}
  {logged : Logged}
variable {cs line : List Char} {lines : List (List Char)} {e : List (Text × Json)}

/-! ## What can be taken up -/

/-- What is read from a field of a line fits into a line of its own. -/
theorem fits_of_hashIn? (h : hashIn? line = some v) : Json.Fits lineDepth 1 v := by
  obtain ⟨⟨line', w⟩, hread, hfield⟩ := Option.bind_eq_some_iff.1 h
  have hparse : Json.parseWithin lineDepth (ofChars line) = .ok w := by
    unfold read? at hread
    split at hread
    · rename_i w' hparse
      obtain ⟨rfl, rfl⟩ := Prod.mk.inj (Option.some.inj hread)
      exact hparse
    · simp at hread
  have hfits := Json.fits_of_parseWithin (Text.surrogate_not_mem_ofChars line) hparse
  cases w with
  | obj fields =>
    have hmem := Assoc.mem_of_get?_eq_some hfield
    obtain ⟨hregular, hwritable, hdepth⟩ := hfits
    refine ⟨((Json.isRegular_obj.1 hregular).2 _ hmem).2,
      Json.isWritable_obj.1 hwritable _ hmem, ?_⟩
    have hle : (Json.obj fields).depth ≤ 984 + 1 := by simpa [lineDepth] using hdepth
    have hvalue : v.depth ≤ 984 := Json.depth_obj_le.1 hle _ hmem
    rw [lineDepth]
    omega
  | _ => simp [Json.field?] at hfield

/-- The hash that is taken up from a file fits into a line. -/
theorem fits_of_lastHash (h : lastHash d path = .ok v) : Json.Fits lineDepth 1 v := by
  rw [lastHash_eq_bind, bind_eq_ok_iff] at h
  obtain ⟨-, -, h⟩ := h
  obtain ⟨lines, -, hfirst⟩ := bind_eq_ok_iff.1 h
  rw [firstHashOf_eq hfirst]
  cases hfound : lines.reverse.findSome? hashIn? with
  | none => exact ⟨decide_eq_true (Text.joined_ofChars genesis.toList), rfl, by decide⟩
  | some w =>
    obtain ⟨line, -, hline⟩ := List.exists_of_findSome?_eq_some hfound
    exact fits_of_hashIn? hline

/-! ## Entries that were returned -/

/-- The hash that is taken up from a file can be written again. -/
theorem isWritableWithin_of_lastHash (h : lastHash d path = .ok v) :
    v.isWritableWithin (hashDepth - 1) := by
  have hfits := fits_of_lastHash h
  have hdepth : v.depth ≤ hashDepth - 1 := by
    have := hfits.depth
    rw [lineDepth] at this
    rw [hashDepth]
    omega
  simp [Json.isWritableWithin, hfits.writable, hdepth]

/-- After a restart a query is logged exactly if a hash is taken up and its values can be
written. -/
theorem submit_fresh_eq_ok_iff (hq : ∀ v ∈ q.values, v.hasParts = false) :
    (submit .fresh d path time q).2 = .ok logged ↔
      ∃ previous, lastHash d path = .ok previous ∧ (∀ v ∈ q.values, v.isWritable) ∧
        logged = ⟨⟨.str (hash (q.entry time previous)), some path⟩,
          d.append path (Text.Utf8.encode (lineOf (q.entry time previous))),
            q.entry time previous⟩ := by
  have hfor := fresh_for d path
  cases hlast : lastHash d path with
  | error err =>
    rw [submit, hfor, hlast]
    simp [Except.map]
  | ok previous =>
    rw [hlast] at hfor
    have hsize : isHashable (q.fields time previous) ↔ ∀ v ∈ q.values, v.isWritable := by
      rw [Query.isHashable_fields_iff_isWritable fun v hv => isArgument_iff.2 (hq v hv),
        and_iff_left (isWritableWithin_of_lastHash hlast)]
    by_cases hw : ∀ v ∈ q.values, v.isWritable
    · rw [submit_eq hfor (hsize.2 hw)]
      constructor
      · exact fun h => ⟨previous, rfl, hw, (Except.ok.inj h).symm⟩
      · rintro ⟨previous', heq, -, rfl⟩
        rw [← Except.ok.inj heq]
    · obtain ⟨err, herr⟩ := exists_submit_eq_error hfor (hsize.not.2 hw)
      rw [herr]
      simp [hw]

/-- Whether a hash can be taken up from what a file holds: it is a text and, from its last line
back, no line that is beyond the limits comes before one with a hash. -/
def IsContinuable (bytes : List UInt8) : Prop :=
  ∃ lines, linesOf bytes = .ok lines ∧ ∀ newer line older, lines.reverse = newer ++ line :: older →
    (∀ l ∈ newer, hashIn? l = none) → limit? line = none

/-- **Returned entries.** After a restart a query returns an entry exactly if a hash can be taken up
from the file and the values of the query can be written. -/
theorem exists_submit_fresh_iff (hname : Directory.checkName path = .ok ())
    (hq : ∀ v ∈ q.values, v.hasParts = false) :
    (∃ logged, (submit .fresh d path time q).2 = .ok logged) ↔
      IsContinuable (d.bytes path) ∧ ∀ v ∈ q.values, v.isWritable := by
  have hlast : (∃ previous, lastHash d path = .ok previous) ↔
      ∃ lines, linesOf (d.bytes path) = .ok lines ∧ ∃ v, firstHashOf lines.reverse = .ok v := by
    rw [lastHash_eq_bind, hname]
    simp only [mapError_ok, bind_eq_ok_iff]
    exact ⟨fun ⟨v, _, _, lines, hlines, hfirst⟩ => ⟨lines, hlines, v, hfirst⟩,
      fun ⟨lines, hlines, v, hfirst⟩ => ⟨v, (), trivial, lines, hlines, hfirst⟩⟩
  simp only [IsContinuable, submit_fresh_eq_ok_iff hq, ← exists_firstHashOf_iff, ← hlast]
  exact ⟨fun ⟨_, previous, hprevious, hsize, _⟩ => ⟨⟨previous, hprevious⟩, hsize⟩,
    fun ⟨⟨previous, hprevious⟩, hsize⟩ => ⟨_, previous, hprevious, hsize, rfl⟩⟩

/-! ## Lines of entries -/

/-- An entry comes back as it was, and it is not too deep, once its pairs are joined. -/
theorem isFaithful_entry (hq : ∀ v ∈ q.values, v.hasParts = false)
    (hsize : ∀ v ∈ q.values, v.isWritable) (hprevious : Json.Fits lineDepth 1 previous) :
    (Json.obj (joinedFields (q.entry time previous))).IsFaithful ∧
      (Json.obj (joinedFields (q.entry time previous))).depth ≤ lineDepth := by
  have hvalues : ∀ f ∈ q.entry time previous, f.2.joined.IsFaithful ∧ f.2.joined.depth ≤ 984 := by
    refine (Query.forall_mem_entry_iff (P := fun v => v.joined.IsFaithful ∧ v.joined.depth ≤ 984)
      fun s => ?_).2 ⟨fun v hv => ?_, ?_⟩
    · have := Json.isFaithful_joined (v := .str s) rfl
      exact ⟨this.1, by omega⟩
    · have := Json.isFaithful_joined (Json.isLegible_iff.2 ⟨hq v hv, hsize v hv⟩)
      exact ⟨this.1, by omega⟩
    · rw [Json.joined_of_isRegular hprevious.regular]
      have := hprevious.depth
      rw [lineDepth] at this
      exact ⟨⟨hprevious.regular, hprevious.writable⟩, by omega⟩
  have hnames : (joinedFields (q.entry time previous)).map (·.1) =
      (q.entry time previous).map (·.1) := by
    rw [joinedFields, List.map_map]
    rfl
  refine ⟨Json.isFaithful_obj.2
    ⟨by rw [hnames]; exact Query.nodup_names_entry, List.forall_mem_map.2 fun f hf => ?_⟩, ?_⟩
  · exact ⟨Query.joined_name_entry f hf, (hvalues f hf).1⟩
  · exact Json.depth_obj_le.2 (List.forall_mem_map.2 fun f hf => (hvalues f hf).2)

/-- An object begins with a brace and its first key. -/
theorem exists_write_obj_cons_eq (k : Text) (v : Json) (fields : List (Text × Json)) :
    ∃ rest, Json.write (.obj ((k, v) :: fields)) = '\x7b' :: (Json.writeString k ++ rest) := by
  cases fields with
  | nil =>
    exact ⟨':' :: ' ' :: (v.write ++ ['\x7d']),
      by simp [Json.write, Json.writeFields, Json.commaSeparated]⟩
  | cons f fields =>
    exact ⟨':' :: ' ' ::
      (v.write ++ ',' :: ' ' :: (Json.commaSeparated (Json.writeFields (f :: fields)) ++ ['\x7d'])),
      by simp [Json.write, Json.writeFields, Json.commaSeparated]⟩

/-- What follows the first quote of an entry cannot be read by itself. -/
theorem exists_write_entry_eq (q : Query) (time : Instant) (previous : Json) :
    ∃ l, ofChars (Json.write (.obj (q.entry time previous))) = .char '\x7b' :: .char '"' :: l ∧
      .junk ∈ Json.tokens l := by
  have hname : Json.writeString "timestamp" = '"' :: 't' :: 'i' :: "mestamp\"".toList := rfl
  obtain ⟨rest, hrest⟩ :=
    exists_write_obj_cons_eq "timestamp" (.str time.text) (q.entry time previous).tail
  refine ⟨.char 't' :: .char 'i' :: ofChars ("mestamp\"".toList ++ rest), ?_, ?_⟩
  · rw [hname] at hrest
    exact congrArg ofChars hrest
  · -- No word begins so, and no number.
    have hword : ∀ t, Json.scanWord (.char 't' :: .char 'i' :: t) Json.words = none := fun _ => rfl
    have hnumber : ∀ t, Json.scanNumber false (.char 't' :: t) = none := fun _ => rfl
    have hscan : ∀ t, Json.scanScalar (.char 't' :: .char 'i' :: t) = none := fun t => by
      rw [Json.scanScalar_of_ne (by decide) (by decide), hword, hnumber]
      rfl
    rw [Json.tokens_of_none rfl rfl (hscan _)]
    exact List.mem_singleton_self _

/-- The line of an entry is read, after what stood open, exactly if that were blanks. -/
theorem valueOf?_append_entry_iff (hq : ∀ v ∈ q.values, v.hasParts = false)
    (hsize : ∀ v ∈ q.values, v.isWritable) (hprevious : Json.Fits lineDepth 1 previous) :
    valueOf? (openLine cs ++ Json.write (.obj (q.entry time previous))) = .ok (some v) ↔
      EndsBlank cs ∧ v = .obj (joinedFields (q.entry time previous)) := by
  obtain ⟨l, htext, hl⟩ := exists_write_entry_eq q time previous
  obtain ⟨hfaithful, hdepth⟩ := @isFaithful_entry time q previous hq hsize hprevious
  rw [← Json.write_joinedFields] at htext ⊢
  rw [valueOf?_eq_some_iff, Text.ofChars_append,
    Json.parseWithin_append_obj_iff hfaithful hdepth htext hl, ofChars, List.forall_mem_map,
    EndsBlank]

/-! ## Entries that are read back -/

/-- If the last hash is found, the file is text. -/
theorem exists_decode_of_lastHash (h : lastHash d path = .ok previous) :
    ∃ cs, Text.Utf8.decode (d.bytes path) = .ok cs := by
  rw [lastHash_eq_bind, bind_eq_ok_iff] at h
  obtain ⟨-, -, h⟩ := h
  obtain ⟨lines, hlines, -⟩ := bind_eq_ok_iff.1 h
  unfold linesOf at hlines
  split at hlines
  · rename_i cs hdecode
    exact ⟨cs, hdecode⟩
  · simp at hlines

theorem map_toList_eq_iff {ε α : Type} {x : Except ε (Option α)} {a : α} :
    x.map Option.toList = .ok [a] ↔ x = .ok (some a) := by
  cases x with
  | error err => simp [Except.map]
  | ok o => cases o <;> simp [Except.map]

/-- **Entries read back.** The entry that is logged after a restart is read back, as it was
returned, exactly if no more than blanks stood open on the last line of the file, and no text of the
query has two surrogates that make a pair; if more stood open, no entry is read at all. -/
theorem recent_submit_fresh_iff (hq : ∀ v ∈ q.values, v.hasParts = false)
    (htarget : (d.target? path).isSome) (h : (submit .fresh d path time q).2 = .ok logged) :
    ∃ cs, Text.Utf8.decode (d.bytes path) = .ok cs ∧
      (recent logged.directory path 1 = .ok [.obj logged.entry] ↔
        EndsBlank cs ∧ ∀ v ∈ q.values, v.joined = v) ∧
      (¬ EndsBlank cs → ∀ vs, recent logged.directory path 1 = .ok vs → vs = []) := by
  obtain ⟨previous, hprevious, hsize, rfl⟩ := (submit_fresh_eq_ok_iff hq).1 h
  have hfits := fits_of_lastHash hprevious
  obtain ⟨cs, hdecode⟩ := exists_decode_of_lastHash hprevious
  have hlines := linesOf_append_lineOf hdecode (q.entry time previous)
  have hrecent : recent (d.append path (Text.Utf8.encode (lineOf (q.entry time previous))))
      path 1 = _ :=
    recent_one (Directory.find_write _ htarget) hlines
  have hvalue := fun v => @valueOf?_append_entry_iff time q previous v cs hq hsize hfits
  simp only [hrecent]
  refine ⟨cs, hdecode, ?_, fun hopen vs hvs => ?_⟩
  · rw [map_toList_eq_iff, hvalue, Json.obj.injEq, eq_comm, Query.joinedFields_entry_eq_iff,
      and_iff_left (Json.joined_of_isRegular hfits.regular)]
  · obtain ⟨o, ho, rfl⟩ := map_eq_ok_iff.1 hvs
    cases o with
    | none => rfl
    | some v => exact absurd ((hvalue v).1 ho).1 hopen

/-- **After a restart.** Whatever a file holds, a query returns an entry after a restart exactly if
a hash can be taken up from the file and the values of the query can be written. If the file can be
written, the entry is then read back, as it was returned, exactly if no more than blanks stood open
on the last line, and no text of the query has two surrogates that make a pair; if more stood open,
no entry is read at all. -/
theorem logged_after_restart (hname : Directory.checkName path = .ok ())
    (hq : ∀ v ∈ q.values, v.hasParts = false) :
    ((∃ logged, (submit .fresh d path time q).2 = .ok logged) ↔
      IsContinuable (d.bytes path) ∧ ∀ v ∈ q.values, v.isWritable) ∧
    ∀ logged, (submit .fresh d path time q).2 = .ok logged → (d.target? path).isSome →
      ∃ cs, Text.Utf8.decode (d.bytes path) = .ok cs ∧
        (recent logged.directory path 1 = .ok [.obj logged.entry] ↔
          EndsBlank cs ∧ ∀ v ∈ q.values, v.joined = v) ∧
        (¬ EndsBlank cs → ∀ vs, recent logged.directory path 1 = .ok vs → vs = []) :=
  ⟨exists_submit_fresh_iff hname hq, fun _ h htarget => recent_submit_fresh_iff hq htarget h⟩

/-! ### Three files -/

open History (sampleLine sampleQuery sampleTime)

/-- A directory with one file. -/
def fileOf (bytes : List UInt8) : Directory := ⟨[(["audit.jsonl"], bytes)], []⟩

theorem find_fileOf (bytes : List UInt8) : (fileOf bytes).find "audit.jsonl" = .file bytes := by
  have hempty : Directory.way? ⟨[], []⟩ "audit.jsonl" = some ["audit.jsonl"] := by
    decide +kernel
  have hway : (fileOf bytes).way? "audit.jsonl" = some ["audit.jsonl"] :=
    (Directory.way?_congr (d := fileOf bytes) (e := ⟨[], []⟩) rfl _).trans hempty
  rw [Directory.find, hway]
  rfl

theorem target_fileOf (bytes : List UInt8) : ((fileOf bytes).target? "audit.jsonl").isSome := by
  rw [Directory.target?_congr (d := fileOf bytes) (e := ⟨[], []⟩) rfl]
  exact History.target_sample

theorem bytes_fileOf (bytes : List UInt8) : (fileOf bytes).bytes "audit.jsonl" = bytes := by
  rw [Directory.bytes, find_fileOf]

/-- A file whose lines have no values starts the chain anew. -/
theorem lastHash_fileOf {lines : List (List Char)} {bytes : List UInt8}
    (hlines : linesOf bytes = .ok lines) (hvalues : ∀ l ∈ lines, valueOf? l = .ok none) :
    lastHash (fileOf bytes) "audit.jsonl" = .ok (.str genesis) := by
  have hfirst : ∀ {ls : List (List Char)},
      (∀ l ∈ ls, valueOf? l = .ok none) → firstHashOf ls = .ok (.str genesis) := by
    intro ls hls
    induction ls with
    | nil => rfl
    | cons l ls ih =>
      rw [List.forall_mem_cons] at hls
      rw [firstHashOf, hls.1]
      exact ih hls.2
  rw [lastHash_eq_bind, checkName_of_target? (target_fileOf bytes), bytes_fileOf, hlines]
  exact hfirst fun l hl => hvalues l (List.mem_reverse.1 hl)

theorem hasParts_of_mem_sampleQuery : ∀ v ∈ sampleQuery.values, v.hasParts = false := by decide

/-- The bytes of a whole line of another writer. -/
def foreignBytes : List UInt8 := Text.Utf8.encode (sampleLine ++ ['\n'])

theorem linesOf_foreignBytes : linesOf foreignBytes = .ok [sampleLine] :=
  linesOf_encode_line History.isForeign_sampleLine.isLine History.isBlank_ends_sampleLine.1
    History.isBlank_ends_sampleLine.2

/-- After the line of another writer the entry is read back. -/
theorem logged_after_restart_foreign_line :
    ∃ logged,
      (submit .fresh (fileOf foreignBytes) "audit.jsonl" sampleTime sampleQuery).2 = .ok logged ∧
      recent logged.directory "audit.jsonl" 1 = .ok [.obj logged.entry] := by
  obtain ⟨hreturned, hback⟩ :=
    @logged_after_restart (fileOf foreignBytes) "audit.jsonl" sampleTime sampleQuery
      (checkName_of_target? (target_fileOf foreignBytes)) hasParts_of_mem_sampleQuery
  have hlimit : ∀ line ∈ [sampleLine], limit? line = none :=
    List.forall_mem_singleton.2 History.isWithinLimits_sampleLine.limit?
  have hcontinuable : IsContinuable ((fileOf foreignBytes).bytes "audit.jsonl") :=
    ⟨[sampleLine], by rw [bytes_fileOf, linesOf_foreignBytes],
      fun newer line older heq _ => hlimit line (List.mem_reverse.1 (by simp [heq]))⟩
  obtain ⟨logged, hlogged⟩ := hreturned.2 ⟨hcontinuable, by decide⟩
  obtain ⟨cs, hdecode, hiff, -⟩ := hback logged hlogged (target_fileOf _)
  obtain rfl : sampleLine ++ ['\n'] = cs := by
    rw [bytes_fileOf, foreignBytes, Text.Utf8.decode_encode] at hdecode
    exact Except.ok.inj hdecode
  have hopen : openLine (sampleLine ++ ['\n']) = [] := rfl
  have hblank : EndsBlank (sampleLine ++ ['\n']) := by
    rw [EndsBlank, hopen]
    exact List.forall_mem_nil _
  have hregular : ∀ v ∈ sampleQuery.values, v.isRegular := by decide
  exact ⟨logged, hlogged, hiff.2 ⟨hblank, fun v hv => Json.joined_of_isRegular (hregular v hv)⟩⟩

/-- The bytes of a line that was torn after its first character. -/
def tornBytes : List UInt8 := Text.Utf8.encode ['\x7b']

/-- A torn line makes the next entry unreadable, and bytes that are no text make the query fail. -/
theorem not_logged_after_restart :
    (∃ logged,
      (submit .fresh (fileOf tornBytes) "audit.jsonl" sampleTime sampleQuery).2 = .ok logged ∧
      ((fileOf tornBytes).target? "audit.jsonl").isSome ∧
      recent logged.directory "audit.jsonl" 1 ≠ .ok [.obj logged.entry]) ∧
    (submit .fresh (fileOf [0xff]) "audit.jsonl" sampleTime sampleQuery).2 =
      .error (.utf8 ⟨0, [0xff], .badStart⟩) := by
  constructor
  · have hlines : linesOf tornBytes = .ok [['\x7b']] := by
      rw [linesOf, tornBytes, Text.Utf8.decode_encode]
      rfl
    have hvalue : valueOf? ['\x7b'] = .ok none := by
      rw [valueOf?, Json.parseWithin, Text.ofChars_cons, Json.tokens_of_mark? rfl, Text.ofChars_nil,
        Json.tokens_nil]
      rfl
    have hlast := lastHash_fileOf hlines (List.forall_mem_singleton.2 hvalue)
    have hlogged : ∃ logged,
        (submit .fresh (fileOf tornBytes) "audit.jsonl" sampleTime sampleQuery).2 = .ok logged :=
      ⟨_, (submit_fresh_eq_ok_iff hasParts_of_mem_sampleQuery).2 ⟨_, hlast, by decide, rfl⟩⟩
    obtain ⟨logged, hlogged⟩ := hlogged
    refine ⟨logged, hlogged, target_fileOf _, fun hrecent => ?_⟩
    obtain ⟨cs, hdecode, hiff, -⟩ :=
      recent_submit_fresh_iff hasParts_of_mem_sampleQuery (target_fileOf _) hlogged
    obtain rfl : ['\x7b'] = cs := by
      rw [bytes_fileOf, tornBytes, Text.Utf8.decode_encode] at hdecode
      exact Except.ok.inj hdecode
    have hopen : openLine ['\x7b'] = ['\x7b'] := rfl
    have hspace := (hiff.1 hrecent).1 '\x7b' (by rw [hopen]; exact List.mem_singleton_self _)
    exact absurd hspace (by decide)
  · have hlines : linesOf [0xff] = .error (.utf8 ⟨0, [0xff], .badStart⟩) := rfl
    have hlast : lastHash (fileOf [0xff]) "audit.jsonl" =
        .error (.utf8 ⟨0, [0xff], .badStart⟩) := by
      rw [lastHash_eq_bind, checkName_of_target? (target_fileOf [0xff]), bytes_fileOf, hlines]
      rfl
    rw [submit, fresh_for, hlast]
    rfl

end Dialectic.Audit
