import Dialectic.Proofs.Blanks
import Dialectic.Proofs.Entries
import Dialectic.Proofs.Outcome
import Dialectic.Proofs.Trimming
import Dialectic.Text.Utf8.RoundTrip

/-!
# The file of the audit log

A file of whole lines holds what was written to it: the entries, which neither begin nor end with
blanks, and the lines of others, which are no JSON texts when they are trimmed and so are passed
over (`readable_eq`). The hash that a process takes up from such a file is that of its last entry
(`lastHash_eq`).
-/

namespace Dialectic.Audit

open Json (joinedFields)
open Text (ofChars isBlank trimBy pieces)

/-! ## Reading a line -/

/-- A line that is JSON, with its value. -/
def read? (line : List Char) : Option (List Char × Json) :=
  match Json.parseWithin lineDepth (ofChars line) with
  | .ok v => some (line, v)
  | .error _ => none

/-- The lines of a file that are JSON, with their values, in order. -/
def readable (d : Directory) (path : String) : List (List Char × Json) :=
  match linesOf (d.bytes path) with
  | .ok lines => lines.filterMap read?
  | .error _ => []

/-- The text of whole lines. -/
def textOf (lines : List (List Char)) : List Char := lines.flatMap (· ++ ['\n'])

/-- An entry as it is read: its line, and its fields with the pairs in its texts joined. -/
def reading (e : List (Text × Json)) : List Char × Json :=
  (Json.write (.obj e), .obj (joinedFields e))

variable {e : List (Text × Json)} {es : List (List (Text × Json))} {line : List Char}
  {lines : List (List Char)}
variable {d : Directory} {path : String} {v : Json}

theorem valueOf?_eq_some_iff :
    valueOf? line = .ok (some v) ↔ Json.parseWithin lineDepth (ofChars line) = .ok v := by
  unfold valueOf?
  split <;> simp_all

theorem read?_nil : read? [] = none := by
  have hparse : Json.parseWithin lineDepth (ofChars []) = .error .malformed := by
    rw [Json.parseWithin, Text.ofChars_nil, Json.tokens_nil]
    rfl
  rw [read?, hparse]

/-- The line of an entry is read as the entry. -/
theorem read?_write (h : IsEntry e) : read? (Json.write (.obj e)) = some (reading e) := by
  rw [read?, Json.parseWithin_write (by decide) h.legible h.nodup]
  rfl

/-- A line that is no JSON text is none with blanks around it. -/
theorem read?_append_eq_none {a b : List Char} (ha : ∀ c ∈ a, isBlank c) (hb : ∀ c ∈ b, isBlank c)
    (h : read? line = none) : read? (a ++ line ++ b) = none := by
  have hblanks : ∀ {cs : List Char}, (∀ c ∈ cs, isBlank c) → ∀ p ∈ ofChars cs, p.is isBlank := by
    intro cs hcs p hp
    obtain ⟨c, hc, rfl⟩ := List.mem_map.1 hp
    exact hcs c hc
  unfold read? at h ⊢
  split
  · rename_i v hparse
    rw [Text.ofChars_append, Text.ofChars_append] at hparse
    rw [Json.parseWithin_of_blanks (hblanks ha) (hblanks hb) hparse] at h
    exact absurd h (by simp)
  · rfl

/-! ## Lines -/

/-- Whether a line has no line ending. -/
def IsLine (line : List Char) : Prop := '\n' ∉ line ∧ '\r' ∉ line

/-- A line of another writer: it has no line ending, and it is no JSON text when it is trimmed. -/
structure IsForeign (line : List Char) : Prop where
  isLine : IsLine line
  refused : read? (trimBy isBlank line) = none

/-- Nothing is read from a line of another writer. -/
theorem IsForeign.read?_eq_none (h : IsForeign line) : read? line = none := by
  obtain ⟨a, b, ha, hb, heq⟩ := Text.exists_trimBy_eq isBlank line
  rw [heq]
  exact read?_append_eq_none ha hb h.refused

/-- However many blanks are taken away from it, the line of another writer is no JSON text. -/
theorem IsForeign.isSteady (h : IsForeign line) : Text.IsSteady isBlank read? line := by
  rintro a m b rfl ha hb
  have hm : IsForeign m := by
    refine ⟨⟨?_, ?_⟩, ?_⟩
    · exact fun hc => h.isLine.1 (by simp [hc])
    · exact fun hc => h.isLine.2 (by simp [hc])
    · rw [← Text.trimBy_append ha hb]
      exact h.refused
  rw [hm.read?_eq_none, h.read?_eq_none]

/-- What is written for a value is one line. -/
theorem isLine_write (v : Json) : IsLine v.write := by
  have hprinted := Json.le_toNat_of_mem_write v
  exact ⟨fun hc => absurd (hprinted _ hc) (by decide), fun hc => absurd (hprinted _ hc) (by decide)⟩

theorem head?_write_obj (e : List (Text × Json)) : (Json.write (.obj e)).head? = some '\x7b' := by
  rw [Json.write]
  rfl

theorem getLast?_write_obj (e : List (Text × Json)) :
    (Json.write (.obj e)).getLast? = some '\x7d' := by
  rw [Json.write, List.getLast?_concat]

/-- The line of an entry does not begin with a blank. -/
theorem isBlank_head_write_obj (e : List (Text × Json)) :
    ∀ c ∈ (Json.write (.obj e)).head?, isBlank c = false := by
  intro c hc
  rw [head?_write_obj] at hc
  obtain rfl : '\x7b' = c := Option.some.inj hc
  decide

/-- The line of an entry does not end with a blank. -/
theorem isBlank_getLast_write_obj (e : List (Text × Json)) :
    ∀ c ∈ (Json.write (.obj e)).getLast?, isBlank c = false := by
  intro c hc
  rw [getLast?_write_obj] at hc
  obtain rfl : '\x7d' = c := Option.some.inj hc
  decide

/-- However many blanks are taken away from it, the line of an entry stays as it is. -/
theorem isSteady_write {β : Type} (f : List Char → Option β) (e : List (Text × Json)) :
    Text.IsSteady isBlank f (Json.write (.obj e)) :=
  Text.isSteady_of_ends (isBlank_head_write_obj e) (isBlank_getLast_write_obj e)

/-- The text of lines without a line ending is taken apart into them; an empty piece stands after
the last one. -/
theorem pieces_textOf (h : ∀ l ∈ lines, IsLine l) : pieces '\n' (textOf lines) = lines ++ [[]] :=
  Text.pieces_flatMap fun l hl => (h l hl).1

/-- Lines without line ends in them have none to be unified. -/
theorem unifyLineEnds_textOf (h : ∀ l ∈ lines, IsLine l) :
    unifyLineEnds (textOf lines) = textOf lines := by
  refine unifyLineEnds_of_not_mem fun hc => ?_
  obtain ⟨l, hl, hc⟩ := List.mem_flatMap.1 hc
  rcases List.mem_append.1 hc with hc | hc
  · exact (h l hl).2 hc
  · exact absurd (List.mem_singleton.1 hc) (by decide)

/-! ## Files of whole lines -/

/-- Whether a file consists of the given lines. -/
structure HoldsLines (d : Directory) (path : String) (lines : List (List Char)) : Prop where
  bytes : d.bytes path = Text.Utf8.encode (textOf lines)
  isLine : ∀ l ∈ lines, IsLine l

/-- A file that is not there holds no lines. -/
theorem holdsLines_nil (h : d.find path = .absent) : HoldsLines d path [] :=
  ⟨by rw [Directory.bytes, h]; rfl, by simp⟩

/-- A line that is appended is the last one. -/
theorem HoldsLines.append (h : HoldsLines d path lines) (htarget : (d.target? path).isSome)
    (hline : IsLine line) :
    HoldsLines (d.append path (Text.Utf8.encode (line ++ ['\n']))) path (lines ++ [line]) := by
  refine ⟨?_, List.forall_mem_append.2 ⟨h.isLine, List.forall_mem_singleton.2 hline⟩⟩
  rw [Directory.bytes_append_self _ htarget, h.bytes, ← Text.Utf8.encode_append]
  simp [textOf]

/-- What is appended to another file changes nothing. -/
theorem HoldsLines.append_of_ne {other : String} (h : HoldsLines d other lines)
    (hne : d.way? path ≠ d.way? other) (bytes : List UInt8) :
    HoldsLines (d.append path bytes) other lines :=
  ⟨by rw [Directory.bytes_append_of_ne bytes hne, h.bytes], h.isLine⟩

/-- The lines that are found in a file are, but for blanks, those that it consists of: what is read
of them is the same. -/
theorem HoldsLines.exists_linesOf {β : Type} {f : List Char → Option β}
    (h : HoldsLines d path lines) (hnil : f [] = none)
    (hsteady : ∀ l ∈ lines, Text.IsSteady isBlank f l) :
    ∃ found, linesOf (d.bytes path) = .ok found ∧ found.filterMap f = lines.filterMap f := by
  have hpieces := pieces_textOf h.isLine
  have hall : ∀ l ∈ pieces '\n' (textOf lines), Text.IsSteady isBlank f l := by
    rw [hpieces, List.forall_mem_append, List.forall_mem_singleton]
    exact ⟨hsteady, Text.isSteady_nil⟩
  refine ⟨pieces '\n' (trimBy isBlank (textOf lines)), ?_, ?_⟩
  · rw [h.bytes, linesOf, Text.Utf8.decode_encode]
    simp only
    rw [unifyLineEnds_textOf h.isLine]
  · rw [Text.filterMap_pieces_trimBy hnil hall, hpieces, List.filterMap_append,
      List.filterMap_cons_none hnil, List.filterMap_nil, List.append_nil]

/-- A file with one whole line, which neither begins nor ends with a blank, has that line. -/
theorem linesOf_encode_line (hline : IsLine line) (hfirst : ∀ c ∈ line.head?, isBlank c = false)
    (hlast : ∀ c ∈ line.getLast?, isBlank c = false) :
    linesOf (Text.Utf8.encode (line ++ ['\n'])) = .ok [line] := by
  have hunify : unifyLineEnds (line ++ ['\n']) = line ++ ['\n'] :=
    unifyLineEnds_of_not_mem (by simpa using hline.2)
  have htrim : trimBy isBlank (line ++ ['\n']) = line := by
    have hend : trimBy isBlank ([] ++ line ++ ['\n']) = trimBy isBlank line :=
      Text.trimBy_append (List.forall_mem_nil _) (List.all_iff_forall_prop.1 rfl)
    rwa [List.nil_append, Text.trimBy_eq_self hfirst hlast] at hend
  rw [linesOf, Text.Utf8.decode_encode]
  simp only
  rw [hunify, htrim, Text.pieces_of_not_mem hline.1]

/-! ## Files of entries -/

/-- Whether the lines of a file that are JSON are those of some entries. -/
def HoldsEntries (d : Directory) (path : String) (es : List (List (Text × Json))) : Prop :=
  ∃ lines, HoldsLines d path lines ∧ (∀ l ∈ lines, Text.IsSteady isBlank read? l) ∧
    lines.filterMap read? = es.map reading

/-- The entries are what is read of the file. -/
theorem HoldsEntries.readable_eq (h : HoldsEntries d path es) :
    readable d path = es.map reading := by
  obtain ⟨lines, hlines, hsteady, hread⟩ := h
  obtain ⟨found, hfound, heq⟩ := hlines.exists_linesOf read?_nil hsteady
  rw [readable, hfound, ← hread, ← heq]

/-- The values that are read of the file are the entries, with the pairs in their texts joined. -/
theorem HoldsEntries.map_readable (h : HoldsEntries d path es) :
    (readable d path).map (·.2) = es.map fun e => .obj (joinedFields e) := by
  rw [h.readable_eq, List.map_map]
  rfl

/-- What is read of the file stands the check exactly if every entry after the first follows the one
before it. -/
theorem HoldsEntries.verify_iff (h : HoldsEntries d path es) (hes : ∀ e ∈ es, IsEntry e) :
    verify ((readable d path).map (·.2)) = .ok true ↔ es.IsChain Follows := by
  rw [h.map_readable, verify_joinedFields_iff hes]

/-- A file that is not there holds no entries. -/
theorem holdsEntries_nil (h : d.find path = .absent) : HoldsEntries d path [] :=
  ⟨[], holdsLines_nil h, by simp, rfl⟩

/-- The line of an entry makes it the last one. -/
theorem HoldsEntries.append_entry (h : HoldsEntries d path es) (htarget : (d.target? path).isSome)
    (he : IsEntry e) :
    HoldsEntries (d.append path (Text.Utf8.encode (lineOf e))) path (es ++ [e]) := by
  obtain ⟨lines, hlines, hsteady, hread⟩ := h
  refine ⟨lines ++ [Json.write (.obj e)], hlines.append htarget (isLine_write _),
    List.forall_mem_append.2 ⟨hsteady, List.forall_mem_singleton.2 (isSteady_write read? e)⟩, ?_⟩
  rw [List.filterMap_append, hread, List.filterMap_cons_some (read?_write he), List.map_append]
  rfl

/-- A line of another writer leaves the entries alone. -/
theorem HoldsEntries.append_foreign (h : HoldsEntries d path es) (htarget : (d.target? path).isSome)
    (hline : IsForeign line) :
    HoldsEntries (d.append path (Text.Utf8.encode (line ++ ['\n']))) path es := by
  obtain ⟨lines, hlines, hsteady, hread⟩ := h
  refine ⟨lines ++ [line], hlines.append htarget hline.isLine,
    List.forall_mem_append.2 ⟨hsteady, List.forall_mem_singleton.2 hline.isSteady⟩, ?_⟩
  rw [List.filterMap_append, hread, List.filterMap_cons_none hline.read?_eq_none,
    List.filterMap_nil, List.append_nil]

/-- So does what is appended to another file. -/
theorem HoldsEntries.append_of_ne {other : String} (h : HoldsEntries d other es)
    (hne : d.way? path ≠ d.way? other) (bytes : List UInt8) :
    HoldsEntries (d.append path bytes) other es := by
  obtain ⟨lines, hlines, hsteady, hread⟩ := h
  exact ⟨lines, hlines.append_of_ne hne bytes, hsteady, hread⟩

/-! ## The hash that is taken up -/

theorem valueOf?_nil : valueOf? [] = .ok none := by
  rw [valueOf?, Json.parseWithin, Text.ofChars_nil, Json.tokens_nil]
  rfl

/-- The hash is taken up from the lines of the file, also where there is no file. -/
theorem lastHash_eq_bind (d : Directory) (path : String) : lastHash d path = (do
    (Directory.checkName path).mapError .name
    firstHashOf (← linesOf (d.bytes path)).reverse) := by
  rw [lastHash, Directory.bytes]
  cases d.find path with
  | file bytes => rfl
  | _ =>
    -- An empty text has one empty line, from which nothing is taken up.
    have hfirst : firstHashOf [[]] = .ok (.str genesis) := by
      rw [firstHashOf, valueOf?_nil]
      rfl
    have hlines : linesOf [] = .ok [[]] := rfl
    simp only [hlines, bind, Except.bind, List.reverse_singleton, hfirst]
    rfl

/-- What is read from a line is its value. -/
theorem read?_of_valueOf? {o : Option Json} (h : valueOf? line = .ok o) :
    (read? line).map (·.2) = o := by
  unfold valueOf? at h
  rw [read?]
  split at h
  · rename_i v hparse
    rw [hparse]
    exact Except.ok.inj h
  · rename_i hparse
    rw [hparse]
    exact Except.ok.inj h
  · exact absurd h (by rintro ⟨⟩)

/-- Why a line is not read to its end. -/
def limit? (line : List Char) : Option ReadError :=
  match valueOf? line with
  | .ok _ => none
  | .error err => some err

/-- The hash that an entry in a line has. -/
def hashIn? (line : List Char) : Option Json := (read? line).bind (·.2.field? hashField)

/-- The hash in a line is that in its value. -/
theorem hashIn?_eq {o : Option Json} (h : valueOf? line = .ok o) :
    hashIn? line = o.bind (·.field? hashField) := by
  rw [← read?_of_valueOf? h, Option.bind_map]
  rfl

/-- The hash that is taken up is the first that an entry in some lines has. -/
theorem firstHashOf_eq {v : Json} (h : firstHashOf lines = .ok v) :
    v = (lines.findSome? hashIn?).getD (.str genesis) := by
  induction lines with
  | nil => exact (Except.ok.inj h).symm
  | cons line lines ih =>
    rw [firstHashOf, bind_eq_ok_iff] at h
    obtain ⟨o, ho, h⟩ := h
    rw [List.findSome?_cons, hashIn?_eq ho]
    split at h
    · rename_i w hw
      rw [hw]
      exact (Except.ok.inj h).symm
    · rename_i hw
      rw [hw]
      exact ih h

/-- The first hash in some lines is the first in what is read from them. -/
theorem findSome?_hashIn? (lines : List (List Char)) :
    lines.findSome? hashIn? = (lines.filterMap read?).findSome? (·.2.field? hashField) := by
  induction lines with
  | nil => rfl
  | cons line lines ih =>
    rw [List.findSome?_cons, hashIn?]
    cases hread : read? line with
    | none => rw [List.filterMap_cons_none hread, Option.bind_none, ih]
    | some r => rw [List.filterMap_cons_some hread, List.findSome?_cons, Option.bind_some, ih]

/-- What holds wherever a list is taken apart holds of its first element and wherever the rest is
taken apart. -/
theorem forall_eq_append_cons_iff {α : Type} {P : List α → α → Prop} {x : α} {xs : List α} :
    (∀ a y b, x :: xs = a ++ y :: b → P a y) ↔
      P [] x ∧ ∀ a y b, xs = a ++ y :: b → P (x :: a) y := by
  constructor
  · exact fun h => ⟨h [] x xs rfl, fun a y b heq => h (x :: a) y b (by rw [heq, List.cons_append])⟩
  · rintro ⟨hfirst, hrest⟩ a y b heq
    cases a with
    | nil => exact (List.cons.inj heq).1 ▸ hfirst
    | cons z a =>
      obtain ⟨rfl, htail⟩ := List.cons.inj heq
      exact hrest a y b htail

/-- A hash is taken up from some lines, or none of them has one, unless a line that is beyond the
limits comes first. -/
theorem exists_firstHashOf_iff : (∃ v, firstHashOf lines = .ok v) ↔
    ∀ before line after, lines = before ++ line :: after → (∀ l ∈ before, hashIn? l = none) →
      limit? line = none := by
  induction lines with
  | nil => exact iff_of_true ⟨_, rfl⟩ (by simp)
  | cons line lines ih =>
    simp only [forall_eq_append_cons_iff, List.forall_mem_cons, and_imp]
    rw [firstHashOf]
    cases ho : valueOf? line with
    | error err => exact iff_of_false (by simp [bind, Except.bind]) (by simp [limit?, ho])
    | ok o =>
      have hlimit : limit? line = none := by
        rw [limit?, ho]
      rw [hashIn?_eq ho]
      cases hfield : o.bind (·.field? hashField) with
      | some w =>
        exact iff_of_true ⟨w, by simp [hfield, bind, Except.bind, pure, Except.pure]⟩
          (by simp [hlimit])
      | none => simpa [hfield, bind, Except.bind, hlimit] using ih

/-- The newest hash in the lines of entries is that of the last entry. -/
theorem findSome?_reading (hes : ∀ e ∈ es, IsEntry e) :
    ((es.map reading).reverse.findSome? (·.2.field? hashField)).getD (.str genesis) =
      .str (headOf es) := by
  rcases List.eq_nil_or_concat es with rfl | ⟨es, e, rfl⟩
  · rfl
  · have hown : (reading e).2.field? hashField = some (.str (hash e)) := by
      rw [reading, Json.field?, Json.get?_joinedFields, (hes e (by simp)).own, Option.map_some,
        Json.joined, Text.ofString, Text.joined_ofChars]
    simp [headOf, hown]

/-- The hash taken up from a file of entries is that of the last one. -/
theorem lastHash_eq {v : Json} (hread : readable d path = es.map reading)
    (hes : ∀ e ∈ es, IsEntry e) (h : lastHash d path = .ok v) : v = .str (headOf es) := by
  rw [lastHash_eq_bind, bind_eq_ok_iff] at h
  obtain ⟨_, -, h⟩ := h
  obtain ⟨lines, hlines, hfirst⟩ := bind_eq_ok_iff.1 h
  rw [readable, hlines] at hread
  simp only at hread
  rw [firstHashOf_eq hfirst, findSome?_hashIn?, List.filterMap_reverse, hread,
    findSome?_reading hes]

theorem checkName_of_target? (h : (d.target? path).isSome) : Directory.checkName path = .ok () := by
  cases hname : Directory.checkName path with
  | error err => simp [Directory.target?, hname, Except.isOk, Except.toBool] at h
  | ok _ => rfl

/-- Where a file can be written and is not there, the chain begins. -/
theorem lastHash_of_absent (habsent : d.find path = .absent) (htarget : (d.target? path).isSome) :
    lastHash d path = .ok (.str genesis) := by
  rw [lastHash, checkName_of_target? htarget, habsent]
  rfl

end Dialectic.Audit
