import Dialectic.Proofs.LogFile
import Dialectic.Proofs.OpenTexts

/-!
# The last line of a file

The line of an entry is written at the end of whatever a file holds, so it goes on with the line
that stands open there, if there is one (`openLine`). The last line of the file is then what stood
open and the line of the entry (`linesOf_append_lineOf`), and the newest entry is whatever that line
is read as (`recent_one`).
-/

namespace Dialectic.Audit

open Json (joinedFields)
open Text (isBlank ofChars pieces trimBy)

variable {bytes : List UInt8} {cs : List Char} {d : Directory} {path : String}
  {e : List (Text × Json)}
variable {line : List Char} {older : List (List Char)} {v : Json}

/-! ## What stands open -/

/-- What stands on the line that goes on where a text ends; nothing if the last line is whole.
Blanks at the beginning of the text do not count. -/
def openLine (cs : List Char) : List Char :=
  (pieces '\n' ((unifyLineEnds cs).dropWhile isBlank)).getLastD []

/-- Whether no more than blanks stand on the line that goes on where a text ends. -/
def EndsBlank (cs : List Char) : Prop := ∀ c ∈ openLine cs, Json.isSpace (.char c)

/-- Line ends can be unified in parts, unless a line end is cut in two. -/
theorem unifyLineEnds_append {ds : List Char} (h : ds.head? ≠ some '\n') (cs : List Char) :
    unifyLineEnds (cs ++ ds) = unifyLineEnds cs ++ unifyLineEnds ds := by
  fun_induction unifyLineEnds cs with
  | case1 => rfl
  | case2 rest ih => rw [List.cons_append, List.cons_append, unifyLineEnds, ih, List.cons_append]
  | case3 rest hnot ih =>
    rw [List.cons_append, unifyLineEnds, ih, List.cons_append]
    -- A carriage return at the very end is a line end of its own.
    intro more heq
    cases rest with
    | nil => exact h (by rw [← List.nil_append ds, heq, List.head?_cons])
    | cons c rest =>
      rw [List.cons_append, List.cons.injEq] at heq
      exact hnot rest (by rw [heq.1])
  | case4 c rest hpair hreturn ih =>
    rw [List.cons_append, unifyLineEnds, ih, List.cons_append]
    · exact fun more hc _ => hreturn hc
    · exact hreturn

theorem trimBy_append_line {u : List Char} (hne : line ≠ [])
    (hfirst : ∀ c ∈ line.head?, isBlank c = false)
    (hlast : ∀ c ∈ line.getLast?, isBlank c = false) :
    trimBy isBlank (u ++ line ++ ['\n']) = u.dropWhile isBlank ++ line := by
  have hsplit : u ++ line ++ ['\n'] =
      u.takeWhile isBlank ++ (u.dropWhile isBlank ++ line) ++ ['\n'] := by
    rw [← List.append_assoc, List.takeWhile_append_dropWhile]
  have hblanks : ∀ c ∈ u.takeWhile isBlank, isBlank c := fun c hc => List.mem_takeWhile_imp hc
  rw [hsplit, Text.trimBy_append hblanks (List.all_iff_forall_prop.1 rfl)]
  refine Text.trimBy_eq_self (fun c hc => ?_) fun c hc => ?_
  · rw [List.head?_append, Option.mem_def, Option.or_eq_some_iff] at hc
    rcases hc with hc | ⟨-, hc⟩
    · simpa [Option.mem_def.1 hc] using List.head?_dropWhile_not isBlank u
    · exact hfirst c hc
  · rw [List.getLast?_append_of_ne_nil _ hne] at hc
    exact hlast c hc

/-- The lines of a text before the one that goes on where it ends. Blanks at the beginning of the
text do not count. -/
def wholeLines (cs : List Char) : List (List Char) :=
  (pieces '\n' ((unifyLineEnds cs).dropWhile isBlank)).dropLast

/-- The last line of a file that an entry was written to is what stood open before, and the line of
the entry. -/
theorem linesOf_append_lineOf (h : Text.Utf8.decode bytes = .ok cs) (e : List (Text × Json)) :
    linesOf (bytes ++ Text.Utf8.encode (lineOf e)) =
      .ok (wholeLines cs ++ [openLine cs ++ Json.write (.obj e)]) := by
  have hline := isLine_write (.obj e)
  have hne : Json.write (.obj e) ≠ [] := by
    intro hnil
    have hfirst := head?_write_obj e
    rw [hnil] at hfirst
    simp at hfirst
  have hunify : unifyLineEnds (cs ++ lineOf e) =
      unifyLineEnds cs ++ Json.write (.obj e) ++ ['\n'] := by
    have hcarriage : '\r' ∉ lineOf e := by
      rw [lineOf, List.mem_append, not_or]
      exact ⟨hline.2, by decide⟩
    have hhead : (lineOf e).head? ≠ some '\n' := by
      rw [lineOf, List.head?_append, head?_write_obj]
      decide
    rw [unifyLineEnds_append hhead, unifyLineEnds_of_not_mem hcarriage, lineOf, List.append_assoc]
  obtain ⟨init, last, hopen, hpieces⟩ :=
    Text.exists_pieces_append_eq hline.1 ((unifyLineEnds cs).dropWhile isBlank)
  have hwhole : wholeLines cs = init := by
    rw [wholeLines, hopen, List.dropLast_concat]
  have hopenLine : openLine cs = last := by
    rw [openLine, hopen]
    simp
  rw [linesOf, Text.Utf8.decode_append_encode h]
  simp only
  rw [hunify, trimBy_append_line hne (isBlank_head_write_obj e) (isBlank_getLast_write_obj e),
    hpieces, hwhole, hopenLine]

/-! ## What is read of the last line -/

/-- One entry is the value of the last line, if it has one. -/
theorem recent_one (hfind : d.find path = .file bytes)
    (hlines : linesOf bytes = .ok (older ++ [line])) :
    recent d path 1 = (valueOf? line).map Option.toList := by
  have hwindow : window 1 (older ++ [line]) = [line] := by
    simp [window]
  rw [recent, hfind]
  simp only [hlines, bind, Except.bind, hwindow, List.mapM_cons, List.mapM_nil, pure, Except.pure]
  cases valueOf? line with
  | error err => rfl
  | ok o => cases o <;> rfl

end Dialectic.Audit
