import Dialectic.Proofs.History

/-!
# What a history returns and keeps

A query returns an entry unless an integer of it has too many digits or a line of another writer has
a value that is beyond what can be read; where neither happens, every query of a history returns one
(`exists_returned_run`). Where no line is lost, the entries of every file are a chain
(`history_chained`). They are read as they were returned if no query brings a text with two
surrogates that make a pair, since these are read as one character (`not_read_as_returned`).
-/

namespace Dialectic.Audit

open Json (joinedFields)
open Text (isBlank ofChars)

/-! ## Lines within the limits -/

/-- Whether no value of a line is beyond what can be read, however many blanks are taken away from
it. -/
def IsWithinLimits (line : List Char) : Prop :=
  ∀ a m b, line = a ++ m ++ b → (∀ c ∈ a, isBlank c) → (∀ c ∈ b, isBlank c) → limit? m = none

variable {line : List Char} {lines : List (List Char)} {e : List (Text × Json)} {d : Directory}
  {path : String}

/-- A line within the limits reaches none of them. -/
theorem IsWithinLimits.limit? (h : IsWithinLimits line) : limit? line = none :=
  h [] line [] (by simp) (by simp) (by simp)

theorem IsWithinLimits.isSteady (h : IsWithinLimits line) :
    Text.IsSteady isBlank Audit.limit? line := by
  intro a m b heq ha hb
  rw [h a m b heq ha hb, h.limit?]

/-- The line of an entry is within the limits. -/
theorem isWithinLimits_write (h : IsEntry e) : IsWithinLimits (Json.write (.obj e)) := by
  intro a m b heq ha hb
  rw [isSteady_write limit? e a m b heq ha hb, limit?, valueOf?,
    Json.parseWithin_write (by decide) h.legible h.nodup]

/-- From a file of lines within the limits a hash is taken up. -/
theorem exists_lastHash (h : HoldsLines d path lines) (hlines : ∀ l ∈ lines, IsWithinLimits l)
    (htarget : (d.target? path).isSome) : ∃ v, lastHash d path = .ok v := by
  have hnil : limit? [] = none := by
    rw [limit?, valueOf?_nil]
  obtain ⟨found, hfound, heq⟩ := h.exists_linesOf hnil fun l hl => (hlines l hl).isSteady
  have hnone : found.filterMap limit? = [] := by
    rw [heq, List.filterMap_eq_nil_iff]
    exact fun l hl => (hlines l hl).limit?
  have hfirst : ∃ v, firstHashOf found.reverse = .ok v :=
    exists_firstHashOf_iff.2 fun before line after heq _ =>
      List.filterMap_eq_nil_iff.1 hnone line (List.mem_reverse.1 (by simp [heq]))
  obtain ⟨v, hv⟩ := hfirst
  refine ⟨v, ?_⟩
  rw [lastHash_eq_bind, checkName_of_target? htarget, hfound]
  exact hv

/-! ## Histories within the limits -/

/-- Whether an event is within the limits: the integers of a query have not too many digits, and the
line of another writer can be read to its end. -/
def Event.IsWithinLimits : Event → Prop
  | .query _ q _ => ∀ v ∈ q.values, v.isWritable
  | .foreign _ line => Audit.IsWithinLimits line
  | _ => True

/-- Whether no text that a query brings has two surrogates that make a pair. -/
def Event.IsUnsplit : Event → Prop
  | .query _ q _ => ∀ v ∈ q.values, v.joined = v
  | _ => True

/-- The queries among some events, with their times and the files that they are logged to: at first
the process logs to `path`. -/
def asked (path : String) : List Event → List (String × Instant × Query)
  | [] => []
  | .query time q _ :: events => (path, time, q) :: asked path events
  | .turn path' :: events => asked path' events
  | .restart :: events => asked path events
  | .foreign _ _ :: events => asked path events

/-- Whether an entry is one that a query was logged as, to the file of the query. -/
def Returned.IsOf (call : String × Instant × Query) (r : Returned) : Prop :=
  r.path = call.1 ∧ ∃ previous, r.entry = call.2.2.entry call.2.1 previous

theorem map_path_of_isOf {calls : List (String × Instant × Query)} {rs : List Returned}
    (h : List.Forall₂ Returned.IsOf calls rs) : rs.map (·.path) = calls.map (·.1) := by
  induction h with
  | nil => rfl
  | cons hone _ ih => rw [List.map_cons, List.map_cons, hone.1, ih]

namespace History

variable {s : History} {names : List String}

/-- Whether a hash can be taken up from every file. -/
def AreWithinLimits (names : List String) (s : History) : Prop :=
  ∀ p ∈ names, ∃ lines, HoldsLines s.directory p lines ∧ ∀ l ∈ lines, Audit.IsWithinLimits l

/-- A line within the limits may be appended to any of the files. -/
theorem AreWithinLimits.append {path : String} (h : AreWithinLimits names s)
    (hkept : IsKept names s) (hpath : path ∈ names) {line : List Char} (hline : IsLine line)
    (hlimits : Audit.IsWithinLimits line) :
    ∀ p ∈ names, ∃ lines,
      HoldsLines (s.directory.append path (Text.Utf8.encode (line ++ ['\n']))) p lines ∧
      ∀ l ∈ lines, Audit.IsWithinLimits l := by
  intro p hp
  obtain ⟨lines, hlines, hall⟩ := h p hp
  by_cases hne : p = path
  · subst hne
    exact ⟨lines ++ [line], hlines.append (hkept.target p hp) hline,
      List.forall_mem_append.2 ⟨hall, List.forall_mem_singleton.2 hlimits⟩⟩
  · exact ⟨lines, hlines.append_of_ne
      (fun hway => hne (hkept.distinct path hpath p hp hway).symm) _, hall⟩

/-- The chain can be taken up where all lines are within the limits. -/
theorem AreWithinLimits.exists_for (h : AreWithinLimits names s) (hkept : IsKept names s) :
    ∃ c, s.chain.for s.directory s.path = .ok c := by
  obtain ⟨lines, hlines, hall⟩ := h s.path hkept.path
  obtain ⟨v, hv⟩ := exists_lastHash hlines hall (hkept.target s.path hkept.path)
  rw [Chain.for]
  split
  · exact ⟨_, rfl⟩
  · exact ⟨⟨v, some s.path⟩, by rw [hv]; rfl⟩

/-- A query within the limits returns an entry. -/
theorem AreWithinLimits.step_query {time : Instant} {q : Query} (h : AreWithinLimits names s)
    (hkept : IsKept names s) (hq : ∀ v ∈ q.values, isArgument v)
    (hsize : ∀ v ∈ q.values, v.isWritable) (written : Bool) :
    ∃ c previous, s.chain.for s.directory s.path = .ok c ∧
      s.step (.query time q written) = (s.takeUp c).record
        (q.entry time (.str (Text.ofString previous))) written := by
  obtain ⟨c, hfor⟩ := h.exists_for hkept
  obtain ⟨previous, hprevious⟩ := (hkept.takeUp hfor).previous
  have hhashable : isHashable (q.fields time c.previous) := by
    rw [show c.previous = .str previous from hprevious]
    exact (Query.isHashable_fields_iff_isWritable hq).2 ⟨hsize, rfl⟩
  refine ⟨c, previous, hfor, ?_⟩
  rw [step_query_eq hfor hhashable, show c.previous = .str previous from hprevious]

/-- Every event keeps the lines within the limits, if it brings no line that is not. -/
theorem AreWithinLimits.step {event : Event} (h : AreWithinLimits names s) (hkept : IsKept names s)
    (hevent : event.IsAdmissible names) (hlimits : event.IsWithinLimits) :
    AreWithinLimits names (s.step event) := by
  cases event with
  | query time q written =>
    obtain ⟨c, previous, hfor, hstep⟩ := h.step_query hkept hevent hlimits written
    have he : IsEntry (q.entry time (.str previous)) :=
      Query.isEntry hevent ((Query.isHashable_fields_iff_isWritable hevent).2 ⟨hlimits, rfl⟩)
    rw [hstep]
    cases written with
    | false => exact h
    | true => exact h.append hkept hkept.path (isLine_write _) (isWithinLimits_write he)
  | restart => exact h
  | turn path => exact h
  | foreign path line => exact h.append hkept hevent.1 hevent.2.isLine hlimits

/-- Every query within the limits returns its entry. -/
theorem AreWithinLimits.exists_returned_run {events : List Event} (h : AreWithinLimits names s)
    (hkept : IsKept names s) (hevents : ∀ e ∈ events, e.IsAdmissible names)
    (hlimits : ∀ e ∈ events, e.IsWithinLimits) :
    ∃ new, (s.run events).returned = s.returned ++ new ∧
      List.Forall₂ Returned.IsOf (asked s.path events) new := by
  induction events generalizing s with
  | nil => exact ⟨[], (List.append_nil _).symm, .nil⟩
  | cons event events ih =>
    rw [List.forall_mem_cons] at hevents hlimits
    obtain ⟨new, hnew, hall⟩ :=
      ih (h.step hkept hevents.1 hlimits.1) (hkept.step hevents.1) hevents.2 hlimits.2
    cases event with
    | query time q written =>
      obtain ⟨c, previous, -, hstep⟩ := h.step_query hkept hevents.1 hlimits.1 written
      rw [hstep] at hall
      refine ⟨⟨s.path, q.entry time (.str previous), written⟩ :: new, ?_, .cons ⟨rfl, _, rfl⟩ hall⟩
      rw [run, List.foldl_cons, ← run, hnew, hstep]
      exact List.append_assoc ..
    | restart => exact ⟨new, hnew, hall⟩
    | turn path => exact ⟨new, hnew, hall⟩
    | foreign path line => exact ⟨new, hnew, hall⟩

/-! ## Entries that are read as they were returned -/

/-- If no query brings a text with a pair of surrogates, no entry that is returned has one. -/
theorem joinedFields_of_mem_returned_run {events : List Event} (hkept : IsKept names s)
    (hevents : ∀ e ∈ events, e.IsAdmissible names) (hunsplit : ∀ e ∈ events, e.IsUnsplit)
    (h : ∀ r ∈ s.returned, joinedFields r.entry = r.entry) :
    ∀ r ∈ (s.run events).returned, joinedFields r.entry = r.entry := by
  induction events generalizing s with
  | nil => exact h
  | cons event events ih =>
    rw [List.forall_mem_cons] at hevents hunsplit
    refine ih (hkept.step hevents.1) hevents.2 hunsplit.2 ?_
    cases event with
    | query time q written =>
      obtain hstep | ⟨c, hfor, hstep | ⟨-, hstep⟩⟩ := s.step_query time q written
      · rwa [hstep]
      · rwa [hstep]
      · -- The hash before has no pair, as no hash has one.
        obtain ⟨previous, hprevious⟩ := (hkept.takeUp hfor).previous
        have hhash : c.previous.joined = c.previous := by
          rw [show c.previous = .str previous from hprevious]
          exact congrArg _ (Text.joined_ofChars previous.toList)
        rw [hstep]
        exact List.forall_mem_append.2 ⟨h, List.forall_mem_singleton.2
          (Query.joinedFields_entry_eq_iff.2 ⟨hunsplit.1, hhash⟩)⟩
    | restart => exact h
    | turn path => exact h
    | foreign path line => exact h

/-! ## Chains over whole histories -/

/-- **Histories.** A process logs queries, is started anew and turns from one file to another and
back, and others append lines of their own. If no line is lost, the JSON texts among the lines of a
file are the entries that were returned for it, in this order, as they are read; they stand the
check, and the first of them names `genesis`. They are read as they were returned if no query brings
a text with two surrogates that make a pair. Within the limits, every query returns its entry. -/
theorem history_chained {d : Directory} (hnames : AreAbsent d names) {first : String}
    (hfirst : first ∈ names) {events : List Event} (hevents : ∀ e ∈ events, e.IsAdmissible names)
    (hwritten : ∀ e ∈ events, e.isWritten) {path : String} (hpath : path ∈ names) :
    let s := (start d first).run events
    readable s.directory path = (s.returnedOn path).map reading ∧
    verify ((readable s.directory path).map (·.2)) = .ok true ∧
    (∀ v ∈ ((readable s.directory path).map (·.2)).head?,
      v.field? previousField = some (.str genesis)) ∧
    ((∀ e ∈ events, e.IsUnsplit) →
      (readable s.directory path).map (·.2) = (s.returnedOn path).map .obj) ∧
    ((∀ e ∈ events, e.IsWithinLimits) →
      List.Forall₂ Returned.IsOf (asked first events) s.returned) := by
  intro s
  have hkept := isKept_start hnames hfirst
  have hwhole : IsWhole names s :=
    IsWhole.run ⟨hkept, isLinked_start d first, by simp [start]⟩ hevents hwritten
  have hholds : HoldsEntries s.directory path (s.returnedOn path) := by
    rw [← writtenOn_eq hwhole.written]
    exact hwhole.kept.holds path hpath
  have hchained := hwhole.linked.chained path
  refine ⟨hholds.readable_eq,
    (hholds.verify_iff hwhole.kept.isEntry_of_mem_returnedOn).2 hchained.follows, ?_, ?_, ?_⟩
  · rw [hholds.map_readable, List.head?_map]
    intro v hv
    obtain ⟨e, he, rfl⟩ := Option.map_eq_some_iff.1 hv
    rw [Json.field?, Json.get?_joinedFields, hchained.first e he]
    rfl
  · intro hunsplit
    have hjoined : ∀ r ∈ s.returned, joinedFields r.entry = r.entry :=
      joinedFields_of_mem_returned_run hkept hevents hunsplit (by simp [start])
    rw [hholds.map_readable]
    refine List.map_congr_left fun e he => ?_
    obtain ⟨r, hr, rfl⟩ := List.mem_map.1 he
    rw [hjoined r (List.mem_filter.1 hr).1]
  · intro hlimits
    have hstart : AreWithinLimits names (start d first) := fun p hp =>
      ⟨[], holdsLines_nil (hnames.absent p hp), by simp⟩
    obtain ⟨new, hnew, hall⟩ := hstart.exists_returned_run hkept hevents hlimits
    rw [show s.returned = [] ++ new from hnew]
    exact hall

/-! ### Two files -/

/-- A line of another writer. -/
def sampleLine : List Char := "# rotated".toList

theorem tokens_sampleLine : Json.tokens (ofChars sampleLine) = [.junk] :=
  Json.tokens_of_none rfl rfl (Json.scanScalar_eq_none rfl (by decide))

theorem parse_sampleLine : Json.parseWithin lineDepth (ofChars sampleLine) = .error .malformed := by
  rw [Json.parseWithin, tokens_sampleLine]
  rfl

theorem isForeign_sampleLine : IsForeign sampleLine := by
  refine ⟨⟨by decide, by decide⟩, ?_⟩
  rw [show Text.trimBy isBlank sampleLine = sampleLine from rfl, read?, parse_sampleLine]

/-- The line neither begins nor ends with a blank. -/
theorem isBlank_ends_sampleLine :
    (∀ c ∈ sampleLine.head?, isBlank c = false) ∧ ∀ c ∈ sampleLine.getLast?, isBlank c = false := by
  refine ⟨fun c hc => ?_, fun c hc => ?_⟩
  · obtain rfl : '#' = c := Option.some.inj hc
    decide
  · obtain rfl : 'd' = c := Option.some.inj hc
    decide

theorem isWithinLimits_sampleLine : Audit.IsWithinLimits sampleLine := by
  intro a m b heq ha hb
  have hsteady : Text.IsSteady isBlank limit? sampleLine :=
    Text.isSteady_of_ends isBlank_ends_sampleLine.1 isBlank_ends_sampleLine.2
  rw [hsteady a m b heq ha hb, limit?, valueOf?, parse_sampleLine]

/-- A process turns to another file, is started anew and turns back. -/
def sampleEvents : List Event :=
  [.query sampleTime sampleQuery true, .foreign "a.jsonl" sampleLine, .turn "b.jsonl",
   .query sampleTime sampleQuery true, .restart, .turn "a.jsonl",
     .query sampleTime sampleQuery true]

theorem areAbsent_sample : AreAbsent ⟨[], []⟩ ["a.jsonl", "b.jsonl"] :=
  ⟨by decide +kernel, by decide +kernel, by decide +kernel⟩

theorem isAdmissible_of_mem_sampleEvents :
    ∀ e ∈ sampleEvents, e.IsAdmissible ["a.jsonl", "b.jsonl"] := by
  have hquery := isArgument_of_mem_sampleQuery
  simpa [sampleEvents, Event.IsAdmissible, isForeign_sampleLine] using hquery

theorem isWithinLimits_of_mem_sampleEvents : ∀ e ∈ sampleEvents, e.IsWithinLimits := by
  have hquery : ∀ v ∈ sampleQuery.values, v.isWritable := by decide
  simpa [sampleEvents, Event.IsWithinLimits, isWithinLimits_sampleLine] using hquery

theorem isUnsplit_of_mem_sampleEvents : ∀ e ∈ sampleEvents, e.IsUnsplit := by
  have hregular : ∀ v ∈ sampleQuery.values, v.isRegular := by decide
  have hquery : ∀ v ∈ sampleQuery.values, v.joined = v :=
    fun v hv => Json.joined_of_isRegular (hregular v hv)
  simpa [sampleEvents, Event.IsUnsplit] using hquery

/-- Three entries are returned, and the two in the first file are a chain and are read as they were
returned. -/
theorem history_chained_two_files :
    let s := (start ⟨[], []⟩ "a.jsonl").run sampleEvents
    s.returned.map (·.path) = ["a.jsonl", "b.jsonl", "a.jsonl"] ∧
      (readable s.directory "a.jsonl").map (·.2) = (s.returnedOn "a.jsonl").map .obj ∧
      verify ((readable s.directory "a.jsonl").map (·.2)) = .ok true := by
  intro s
  obtain ⟨-, hverify, -, hvalues, hall⟩ := history_chained areAbsent_sample (List.mem_cons_self ..)
    isAdmissible_of_mem_sampleEvents (by decide) (List.mem_cons_self ..)
  exact ⟨map_path_of_isOf (hall isWithinLimits_of_mem_sampleEvents),
    hvalues isUnsplit_of_mem_sampleEvents, hverify⟩

/-! ### What is not read as it was returned -/

/-- A query with the two units of a pair in its number. -/
def splitQuery : Query :=
  { sampleQuery with requestId := .str [.surrogate ⟨61, by decide⟩, .surrogate ⟨1536, by decide⟩] }

theorem isArgument_of_mem_splitQuery : ∀ v ∈ splitQuery.values, isArgument v := by
  decide +kernel

/-- A line of another writer that is a number of too many digits. -/
def overlongLine : List Char := List.replicate (Integer.digitLimit + 1) '1'

theorem parse_overlongLine : Json.parseWithin lineDepth (ofChars overlongLine) =
    .error (.limit (.digits (.reading overlongLine.length))) := by
  refine Json.parseWithin_overlong (fun c hc => ?_) ?_ ?_
  · rw [List.eq_of_mem_replicate hc]
    decide
  · rw [overlongLine, List.replicate_succ, List.head?_cons]
    decide
  · rw [overlongLine, List.length_replicate]
    exact Nat.lt_succ_self _

theorem isBlank_ends_overlongLine :
    (∀ c ∈ overlongLine.head?, isBlank c = false) ∧
      ∀ c ∈ overlongLine.getLast?, isBlank c = false := by
  have hall : ∀ c ∈ overlongLine, isBlank c = false := fun c hc => by
    rw [List.eq_of_mem_replicate hc]
    decide
  exact ⟨fun c hc => hall c (List.mem_of_mem_head? hc),
    fun c hc => hall c (List.mem_of_mem_getLast? hc)⟩

theorem isForeign_overlongLine : IsForeign overlongLine := by
  refine ⟨⟨?_, ?_⟩, ?_⟩
  · exact fun hc => absurd (List.eq_of_mem_replicate hc) (by decide)
  · exact fun hc => absurd (List.eq_of_mem_replicate hc) (by decide)
  · rw [Text.trimBy_eq_self isBlank_ends_overlongLine.1 isBlank_ends_overlongLine.2, read?,
      parse_overlongLine]

/-- What that query comes to on a file that was not there. -/
def splitRun : History := (start ⟨[], []⟩ "audit.jsonl").run [.query sampleTime splitQuery true]

/-- What a query comes to after that line. -/
def overlongRun : History :=
  (start ⟨[], []⟩ "audit.jsonl").run
    [.foreign "audit.jsonl" overlongLine, .query sampleTime sampleQuery true]

theorem splitRun_eq : splitRun =
    ((start ⟨[], []⟩ "audit.jsonl").takeUp ⟨.str genesis, some "audit.jsonl"⟩).record
      (splitQuery.entry sampleTime (.str genesis)) true := by
  have hsize : isHashable (splitQuery.fields sampleTime (.str genesis)) := rfl
  rw [splitRun, run, List.foldl_cons, List.foldl_nil, step_query_eq start_for_sample hsize]

/-- A number that is too long stops the search for the last hash. -/
theorem lastHash_overlongLine :
    lastHash (Directory.append ⟨[], []⟩ "audit.jsonl" (Text.Utf8.encode (overlongLine ++ ['\n'])))
      "audit.jsonl" = .error (.limit (.digits (.reading overlongLine.length))) := by
  have hholds := (holdsLines_nil find_absent_sample).append target_sample
    isForeign_overlongLine.isLine
  have htext : textOf ([] ++ [overlongLine]) = overlongLine ++ ['\n'] := List.append_nil _
  have hlines := linesOf_encode_line isForeign_overlongLine.isLine isBlank_ends_overlongLine.1
    isBlank_ends_overlongLine.2
  rw [lastHash_eq_bind, checkName_of_target? target_sample, hholds.bytes, htext, hlines,
    mapError_ok]
  simp only [bind, Except.bind, List.reverse_singleton, firstHashOf, valueOf?, parse_overlongLine]

/-- The two units of a pair are read as one character, so that the entry in the file is not the one
that was returned. And where the line of another writer has a number of too many digits, a query
returns nothing. -/
theorem not_read_as_returned :
    (splitRun.returnedOn "audit.jsonl" = [splitQuery.entry sampleTime (.str genesis)] ∧
      (readable splitRun.directory "audit.jsonl").map (·.2) ≠
        (splitRun.returnedOn "audit.jsonl").map .obj) ∧
    IsForeign overlongLine ∧ overlongRun.returned = [] := by
  refine ⟨?_, isForeign_overlongLine, ?_⟩
  · have hreturned : splitRun.returnedOn "audit.jsonl" =
        [splitQuery.entry sampleTime (.str genesis)] := by
      rw [splitRun_eq]
      rfl
    have hwritten : splitRun.writtenOn "audit.jsonl" = splitRun.returnedOn "audit.jsonl" :=
      writtenOn_eq (by simp [splitRun_eq, History.record, takeUp, start]) _
    have hquery : Event.IsAdmissible ["audit.jsonl"] (.query sampleTime splitQuery true) :=
      isArgument_of_mem_splitQuery
    have hkept : IsKept ["audit.jsonl"] splitRun :=
      (isKept_start (areAbsent_singleton find_absent_sample target_sample)
        (List.mem_singleton_self _)).step hquery
    refine ⟨hreturned, fun heq => ?_⟩
    rw [(hkept.holds _ (List.mem_singleton_self _)).map_readable, hwritten, hreturned] at heq
    have hjoined := Json.obj.inj (List.cons.inj heq).1
    have hnumber := (Query.joinedFields_entry_eq_iff.1 hjoined).1 splitQuery.requestId
      (List.mem_cons_self ..)
    exact absurd (Json.str.inj hnumber) (by decide)
  · have hfor := fresh_for
      (Directory.append ⟨[], []⟩ "audit.jsonl" (Text.Utf8.encode (overlongLine ++ ['\n'])))
      "audit.jsonl"
    rw [lastHash_overlongLine] at hfor
    obtain hstep | ⟨c, hc, -⟩ :=
      ((start ⟨[], []⟩ "audit.jsonl").step (.foreign "audit.jsonl" overlongLine)).step_query
        sampleTime sampleQuery true
    · rw [overlongRun, run, List.foldl_cons, List.foldl_cons, List.foldl_nil, hstep]
      rfl
    · exact absurd (hfor.symm.trans hc) (by simp [Except.map])

end History

end Dialectic.Audit
