import Dialectic.Proofs.TornLines
import Dialectic.Service.Server

/-!
# Reading a log back

A process logs queries to a file that was not there, and is started anew in between. The file then
consists of the lines of the entries that were returned (`IsRecorded`), so the newest entries are
those that were returned last, with the pairs in their texts joined (`recent_eq`). The service shows
them if all of them can be sent (`newestQueries_eq`).
-/

namespace Dialectic

/-! ## Values without parts -/

namespace Json

variable {fields : List (Text × Json)} {v : Json}

/-- Joining the pairs adds no parts to a value. -/
theorem hasParts_joined (v : Json) : v.joined.hasParts = v.hasParts := by
  cases v <;> rfl

/-- A value without parts is shown as it is. -/
theorem visible_eq_self (h : v.hasParts = false) : v.visible = v := by
  cases v with
  | arr items => exact absurd h (by simp [hasParts])
  | obj fields => exact absurd h (by simp [hasParts])
  | _ => rfl

/-- A list is sent as it is if its items are. -/
theorem visible_arr_eq_self {items : List Json} (h : ∀ v ∈ items, v.visible = v) :
    (arr items).visible = arr items := by
  rw [visible]
  induction items with
  | nil => rfl
  | cons v items ih =>
    rw [List.forall_mem_cons] at h
    rw [visibleItems, h.1, arr.inj (ih h.2)]

/-- An object is sent as it is if all its fields are. -/
theorem visible_obj_eq_self
    (h : ∀ f ∈ fields, hiddenStart.isPrefixOf f.1 = false ∧ f.2.visible = f.2) :
    (obj fields).visible = obj fields := by
  rw [visible]
  induction fields with
  | nil => rfl
  | cons f fields ih =>
    rw [List.forall_mem_cons] at h
    rw [visibleFields, h.1.1, h.1.2, obj.inj (ih h.2)]
    rfl

/-! ## What can be sent -/

theorem isSendable_arr {items : List Json} :
    (arr items).isSendable ↔ ∀ v ∈ items, v.isSendable := by
  rw [isSendable]
  induction items with
  | nil => simp [areSendable]
  | cons v items ih => simp [areSendable, ih]

theorem isSendable_obj : (obj fields).isSendable ↔ ∀ f ∈ fields, f.1.isProper ∧ f.2.isSendable := by
  rw [isSendable]
  induction fields with
  | nil => simp [areSendableFields]
  | cons f fields ih =>
    obtain ⟨k, v⟩ := f
    simp [areSendableFields, ih, and_assoc]

end Json

namespace Audit

open Json (joinedFields)
open Text (isBlank pieces)

variable {d : Directory} {path : String} {e : List (Text × Json)} {es : List (List (Text × Json))}

/-! ## Files of entries -/

/-- What is found where nothing but the lines of some entries was written. -/
def contentOf : List (List (Text × Json)) → Directory.Content
  | [] => .absent
  | e :: es => .file (Text.Utf8.encode ((e :: es).flatMap lineOf))

theorem contentOf_of_ne_nil (h : es ≠ []) :
    contentOf es = .file (Text.Utf8.encode (es.flatMap lineOf)) := by
  cases es with
  | nil => exact absurd rfl h
  | cons e es => rfl

theorem bytes_of_contentOf (h : d.find path = contentOf es) :
    d.bytes path = Text.Utf8.encode (es.flatMap lineOf) := by
  rw [Directory.bytes, h]
  cases es <;> rfl

/-- One more line makes the file of one more entry. -/
theorem find_append_lineOf (h : d.find path = contentOf es) (htarget : (d.target? path).isSome) :
    (d.append path (Text.Utf8.encode (lineOf e))).find path = contentOf (es ++ [e]) := by
  rw [contentOf_of_ne_nil (by simp), Directory.append, Directory.find_write _ htarget,
    bytes_of_contentOf h, ← Text.Utf8.encode_append, List.flatMap_append, List.flatMap_singleton]

theorem flatMap_lineOf (es : List (List (Text × Json))) :
    es.flatMap lineOf = textOf (es.map fun e => Json.write (.obj e)) := by
  rw [textOf, List.flatMap_map]
  rfl

theorem isLine_of_mem_map_write : ∀ l ∈ es.map (fun e => Json.write (.obj e)), IsLine l :=
  List.forall_mem_map.2 fun _ _ => isLine_write _

/-- A file that consists of entries holds their lines. -/
theorem holdsLines_of_contentOf (h : d.find path = contentOf es) :
    HoldsLines d path (es.map fun e => Json.write (.obj e)) :=
  ⟨by rw [bytes_of_contentOf h, flatMap_lineOf], isLine_of_mem_map_write⟩

/-- No line stands open at the end of the file, and its whole lines are those of the entries. -/
theorem pieces_flatMap_lineOf (es : List (List (Text × Json))) :
    pieces '\n' ((unifyLineEnds (es.flatMap lineOf)).dropWhile isBlank) =
      (es.map fun e => Json.write (.obj e)) ++ [[]] := by
  have hfirst : (es.flatMap lineOf).dropWhile isBlank = es.flatMap lineOf := by
    cases es with
    | nil => rfl
    | cons e es =>
      obtain ⟨rest, hrest⟩ := List.head?_eq_some_iff.1 (head?_write_obj e)
      rw [List.flatMap_cons, lineOf, hrest]
      rfl
  rw [flatMap_lineOf] at hfirst ⊢
  rw [unifyLineEnds_textOf isLine_of_mem_map_write, hfirst, pieces_textOf isLine_of_mem_map_write]

/-- The lines of the file are those of the entries. -/
theorem linesOf_flatMap_lineOf (h : es ≠ []) :
    linesOf (Text.Utf8.encode (es.flatMap lineOf)) = .ok (es.map fun e => Json.write (.obj e)) := by
  obtain ⟨es, e, rfl⟩ := (List.eq_nil_or_concat es).resolve_left h
  have hopen : openLine (es.flatMap lineOf) = [] := by
    rw [openLine, pieces_flatMap_lineOf]
    simp
  have hwhole : wholeLines (es.flatMap lineOf) = es.map fun e => Json.write (.obj e) := by
    rw [wholeLines, pieces_flatMap_lineOf, List.dropLast_concat]
  rw [List.concat_eq_append, List.flatMap_append, List.flatMap_singleton, Text.Utf8.encode_append,
    linesOf_append_lineOf (Text.Utf8.decode_encode _), hopen, hwhole, List.map_append]
  rfl

/-! ## The newest entries -/

/-- The newest of some entries, the last one first, as they are read. -/
def newest (es : List (List (Text × Json))) (n : Nat) : List Json :=
  (es.reverse.take n).map fun e => .obj (joinedFields e)

/-- Every one of these lines is read, with the pairs joined. -/
theorem mapM_valueOf? (h : ∀ e ∈ es, IsEntry e) :
    (es.map fun e => Json.write (.obj e)).mapM valueOf? =
      .ok (es.map fun e => some (.obj (joinedFields e))) := by
  rw [List.mapM_map]
  exact mapM_eq_ok fun e he =>
    valueOf?_eq_some_iff.2 (Json.parseWithin_write (by decide) (h e he).legible (h e he).nodup)

/-- **The newest entries.** A positive number of entries is read from the end of a file of
entries. -/
theorem recent_eq (hfind : d.find path = contentOf es) (hes : ∀ e ∈ es, IsEntry e) {limit : Int}
    (hlimit : 0 < limit) : recent d path limit = .ok (newest es limit.toNat) := by
  by_cases hne : es = []
  · subst hne
    rw [recent, hfind]
    simp [contentOf, newest]
  · rw [contentOf_of_ne_nil hne] at hfind
    have hwindow : window limit (es.map fun e => Json.write (.obj e)) =
        (es.drop (es.length - limit.toNat)).map fun e => Json.write (.obj e) := by
      rw [window, if_pos hlimit, List.map_drop, List.length_map]
    have hvalues : ∀ es : List (List (Text × Json)),
        (es.map fun e => some (Json.obj (joinedFields e))).filterMap id = es.map fun e =>
          .obj (joinedFields e) := by
      intro es
      rw [List.filterMap_map]
      exact congrFun List.filterMap_eq_map es
    rw [recent, hfind]
    simp only [linesOf_flatMap_lineOf hne, bind, Except.bind, hwindow,
      mapM_valueOf? fun e he => hes e (List.mem_of_mem_drop he), pure, Except.pure, hvalues]
    rw [newest, List.take_reverse, List.map_reverse]

/-- The newest entries are read as they are exactly if no text in them has two surrogates that make
a pair. -/
theorem newest_eq_iff {n : Nat} : newest es n = (es.reverse.take n).map .obj ↔
    ∀ e ∈ es.reverse.take n, ∀ f ∈ e, f.2.joined = f.2 := by
  rw [newest, List.map_inj_left]
  refine forall₂_congr fun e _ => ?_
  rw [Json.obj.injEq, joinedFields_eq_self_iff]

/-! ## What the service shows of them -/

/-- Whether an entry is one that a query is logged as. -/
structure IsLogged (e : List (Text × Json)) : Prop where
  isEntry : IsEntry e
  eq_entry : ∃ (q : Query) (time : Instant) (previous : Json), e = q.entry time previous

/-- No field of what is logged has parts. -/
theorem IsLogged.hasParts (h : IsLogged e) : ∀ f ∈ joinedFields e, f.2.hasParts = false := by
  refine List.forall_mem_map.2 fun f hf => ?_
  rw [Json.hasParts_joined]
  exact (Json.isLegible_iff.1 (h.isEntry.legible f hf).2).1

theorem IsLogged.mem_names (h : IsLogged e) :
    ∀ f ∈ joinedFields e, f.1 ∈ (Query.names ++ [hashField]).map Text.ofString := by
  obtain ⟨q, time, previous, rfl⟩ := h.eq_entry
  refine List.forall_mem_map.2 fun f hf => ?_
  have hname : f.1 ∈ (q.entry time previous).map (·.1) := List.mem_map_of_mem hf
  rwa [Query.names_entry] at hname

/-- All fields of an entry are shown. -/
theorem IsLogged.visible (h : IsLogged e) :
    (Json.obj (joinedFields e)).visible = .obj (joinedFields e) := by
  have hnames : ∀ name ∈ (Query.names ++ [hashField]).map Text.ofString,
      Json.hiddenStart.isPrefixOf name = false := by
    decide
  exact Json.visible_obj_eq_self fun f hf =>
    ⟨hnames f.1 (h.mem_names f hf), Json.visible_eq_self (h.hasParts f hf)⟩

/-- An entry can be sent if its values can. -/
theorem IsLogged.isSendable_iff (h : IsLogged e) :
    (Json.obj (joinedFields e)).isSendable ↔ ∀ f ∈ e, f.2.joined.isSendable := by
  have hnames : ∀ name ∈ (Query.names ++ [hashField]).map Text.ofString, name.isProper := by
    decide
  have hvalues : (∀ f ∈ joinedFields e, f.2.isSendable) ↔ ∀ f ∈ e, f.2.joined.isSendable :=
    List.forall_mem_map
  rw [Json.isSendable_obj, ← hvalues]
  exact ⟨fun hall f hf => (hall f hf).2, fun hall f hf =>
    ⟨hnames f.1 (h.mem_names f hf), hall f hf⟩⟩

/-- A list of entries is two levels deep. -/
theorem depth_newest (h : ∀ e ∈ es, IsLogged e) (n : Nat) : (Json.arr (newest es n)).depth ≤ 2 := by
  refine Json.depth_arr_le.2 (List.forall_mem_map.2 fun e he => Json.depth_obj_le.2 fun f hf => ?_)
  exact (Json.depth_eq_zero ((h e (List.mem_reverse.1 (List.mem_of_mem_take he))).hasParts f hf)).le

/-- What the service shows of the newest entries. -/
def shown (es : List (List (Text × Json))) (n : Nat) : Json :=
  .obj [("queries", .arr (newest es n)), ("total", .int (newest es n).length)]

/-- What the service replies if it shows a number of the newest entries: they are shown if all
values in them can be sent. -/
def replyOf (es : List (List (Text × Json))) (n : Nat) : Reply :=
  if ∀ e ∈ es.reverse.take n, ∀ f ∈ e, f.2.joined.isSendable then
    .json 200 (shown es n)
  else .internalError

/-- All of it is sent. -/
theorem visible_shown (h : ∀ e ∈ es, IsLogged e) (n : Nat) : (shown es n).visible = shown es n := by
  have hitems : (Json.arr (newest es n)).visible = .arr (newest es n) :=
    Json.visible_arr_eq_self (List.forall_mem_map.2 fun e he =>
      (h e (List.mem_reverse.1 (List.mem_of_mem_take he))).visible)
  have hnames : Json.hiddenStart.isPrefixOf (Text.ofString "queries") = false ∧
      Json.hiddenStart.isPrefixOf (Text.ofString "total") = false := by
    decide
  refine Json.visible_obj_eq_self ?_
  rw [List.forall_mem_cons, List.forall_mem_singleton]
  exact ⟨⟨hnames.1, hitems⟩, hnames.2, rfl⟩

/-- It can be written as standard JSON if the values of the entries can. -/
theorem isSendable_shown (h : ∀ e ∈ es, IsLogged e) (n : Nat) :
    (shown es n).isSendable ↔ ∀ e ∈ es.reverse.take n, ∀ f ∈ e, f.2.joined.isSendable := by
  have hname : ∀ s : String, (Text.ofString s).isProper := fun s => Text.isProper_ofChars s.toList
  have hall : (Json.arr (newest es n)).isSendable ↔ _ :=
    Json.isSendable_arr.trans List.forall_mem_map
  rw [shown, Json.isSendable_obj, List.forall_mem_cons, List.forall_mem_singleton, hall,
    and_iff_left ⟨hname _, rfl⟩, and_iff_right (hname _)]
  exact forall₂_congr fun e he =>
    (h e (List.mem_reverse.1 (List.mem_of_mem_take he))).isSendable_iff

/-- It is not deep. -/
theorem depth_shown (h : ∀ e ∈ es, IsLogged e) (n : Nat) : (shown es n).depth ≤ 10 := by
  have hdepth : (shown es n).depth ≤ 2 + 1 := by
    rw [shown, Json.depth_obj_le, List.forall_mem_cons, List.forall_mem_singleton]
    exact ⟨depth_newest h n, Nat.zero_le 2⟩
  exact hdepth.trans (by decide)

/-- A frontend that sends values as standard JSON replies this. -/
theorem ok_shown {fe : Frontend} (hfe : fe.SendsStandard) (h : ∀ e ∈ es, IsLogged e) (n : Nat) :
    fe.ok (shown es n) = replyOf es n := by
  rw [Frontend.ok, replyOf]
  split
  · rename_i hall
    exact hfe.sends (visible_shown h n) (depth_shown h n) ((isSendable_shown h n).2 hall)
  · rename_i hall
    exact hfe.fails (visible_shown h n) (depth_shown h n) fun hs =>
      hall ((isSendable_shown h n).1 hs)

end Audit

open Audit (IsLogged contentOf newest replyOf)

/-- **What is shown.** The service shows the newest entries of a file of entries, at least one and
at most two hundred. -/
theorem Server.newestQueries_eq {s : Server} (hfe : s.frontend.SendsStandard)
    {es : List (List (Text × Json))} (hfind : s.directory.find s.auditPath = contentOf es)
    (hes : ∀ e ∈ es, IsLogged e) (limit : Int) :
    s.newestQueries limit = replyOf es (max 1 (min limit 200)).toNat := by
  have hlimit : 0 < clampLimit limit := by
    rw [clampLimit]
    omega
  rw [newestQueries, Audit.recent_eq hfind (fun e he => (hes e he).isEntry) hlimit]
  exact Audit.ok_shown hfe hes _

namespace Audit

/-! ## Histories of one file -/

/-- Whether an event is one of a process that logs queries to one file and loses no line. -/
def Event.IsOwn : Event → Prop
  | .query _ q written => written ∧ ∀ v ∈ q.values, v.hasParts = false
  | .restart => True
  | _ => False

/-- Whether a query returns an entry: no integer of it has too many digits. -/
def isReturned (call : String × Instant × Query) : Bool := call.2.2.values.all Json.isWritable

/-- What was returned for queries are their entries. -/
theorem exists_entry_of_isOf {calls : List (String × Instant × Query)} {rs : List Returned}
    (h : List.Forall₂ Returned.IsOf calls rs) :
    ∀ r ∈ rs, ∃ (q : Query) (time : Instant) (previous : Json),
      r.entry = q.entry time previous := by
  induction h with
  | nil => simp
  | cons hone _ ih =>
    obtain ⟨-, previous, hentry⟩ := hone
    exact List.forall_mem_cons.2 ⟨⟨_, _, previous, hentry⟩, ih⟩

namespace History

variable {s : History} {path : String} {q : Query} {e : List (Text × Json)} {events : List Event}

/-- What stays as it is as long as a process logs queries to one file that was not there and loses
no line: the file consists of the lines of what was returned. -/
structure IsRecorded (path : String) (s : History) : Prop where
  kept : IsKept [path] s
  content : s.directory.find path = contentOf (s.returned.map (·.entry))

theorem IsRecorded.path_eq (h : IsRecorded path s) :
    s.path = path := List.mem_singleton.1 h.kept.path

theorem IsRecorded.isEntry (h : IsRecorded path s) : ∀ e ∈ s.returned.map (·.entry), IsEntry e :=
  List.forall_mem_map.2 h.kept.entry

/-- All lines of the file can be read. -/
theorem IsRecorded.areWithinLimits (h : IsRecorded path s) : AreWithinLimits [path] s :=
  List.forall_mem_singleton.2 ⟨_, holdsLines_of_contentOf h.content,
    List.forall_mem_map.2 fun e he => isWithinLimits_write (h.isEntry e he)⟩

/-- Taking up the chain leaves the file alone. -/
theorem IsRecorded.takeUp {c : Chain} (h : IsRecorded path s)
    (hfor : s.chain.for s.directory s.path = .ok c) : IsRecorded path (s.takeUp c) :=
  ⟨h.kept.takeUp hfor, h.content⟩

/-- An entry whose line is written is in the file as well. -/
theorem IsRecorded.record (h : IsRecorded path s) (he : IsEntry e) :
    IsRecorded path (s.record e true) := by
  refine ⟨h.kept.record he true, ?_⟩
  obtain rfl := h.path_eq
  rw [History.record, List.map_append]
  exact find_append_lineOf h.content (h.kept.target s.path h.kept.path)

/-- A query whose values can be written returns an entry and writes its line. -/
theorem IsRecorded.step_query_of_isWritable (h : IsRecorded path s)
    (hq : ∀ v ∈ q.values, v.hasParts = false) (hsize : ∀ v ∈ q.values, v.isWritable)
    (time : Instant) :
    ∃ previous : String,
      (s.step (.query time q true)).returned =
        s.returned ++ [⟨path, q.entry time (.str previous), true⟩] ∧
      IsRecorded path (s.step (.query time q true)) := by
  have hvalues : ∀ v ∈ q.values, isArgument v := fun v hv => isArgument_iff.2 (hq v hv)
  obtain ⟨c, previous, hfor, hstep⟩ := h.areWithinLimits.step_query h.kept hvalues hsize true
  have he : IsEntry (q.entry time (.str previous)) :=
    Query.isEntry hvalues ((Query.isHashable_fields_iff_isWritable hvalues).2 ⟨hsize, rfl⟩)
  refine ⟨previous, ?_, ?_⟩
  · rw [hstep, ← h.path_eq]
    rfl
  · rw [hstep]
    exact (h.takeUp hfor).record he

/-- Another query returns nothing and writes nothing. -/
theorem IsRecorded.step_query_of_not_isWritable (h : IsRecorded path s)
    (hq : ∀ v ∈ q.values, v.hasParts = false) (hsize : ¬ ∀ v ∈ q.values, v.isWritable)
    (time : Instant) :
    (s.step (.query time q true)).returned = s.returned ∧
      IsRecorded path (s.step (.query time q true)) := by
  obtain hstep | ⟨c, hfor, hstep | ⟨hfields, -⟩⟩ := s.step_query time q true
  · rw [hstep]
    exact ⟨rfl, h⟩
  · rw [hstep]
    exact ⟨rfl, h.takeUp hfor⟩
  · have hvalues : ∀ v ∈ q.values, isArgument v := fun v hv => isArgument_iff.2 (hq v hv)
    exact absurd ((Query.isHashable_fields_iff_isWritable hvalues).1 hfields).1 hsize

/-- A query adds its entry to what was returned if one is returned for it, and the file keeps up. -/
theorem IsRecorded.step_query (h : IsRecorded path s) (hq : ∀ v ∈ q.values, v.hasParts = false)
    (time : Instant) :
    ∃ new, (s.step (.query time q true)).returned = s.returned ++ new ∧
      List.Forall₂ Returned.IsOf ([(path, time, q)].filter isReturned) new ∧
      IsRecorded path (s.step (.query time q true)) := by
  have hall : isReturned (path, time, q) ↔ ∀ v ∈ q.values, v.isWritable := List.all_eq_true
  by_cases hsize : ∀ v ∈ q.values, v.isWritable
  · obtain ⟨previous, hreturned, hstep⟩ := h.step_query_of_isWritable hq hsize time
    rw [List.filter_cons_of_pos (hall.2 hsize), List.filter_nil]
    exact ⟨_, hreturned, .cons ⟨rfl, _, rfl⟩ .nil, hstep⟩
  · obtain ⟨hreturned, hstep⟩ := h.step_query_of_not_isWritable hq hsize time
    rw [List.filter_cons_of_neg (hall.not.2 hsize), List.filter_nil]
    exact ⟨[], by rw [hreturned, List.append_nil], .nil, hstep⟩

/-- A restart leaves the file alone. -/
theorem IsRecorded.restart (h : IsRecorded path s) : IsRecorded path (s.step .restart) :=
  ⟨h.kept.step trivial, h.content⟩

/-- Over a whole run, the entries of all queries that get one are returned and in the file. -/
theorem IsRecorded.run (h : IsRecorded path s) (hevents : ∀ e ∈ events, e.IsOwn) :
    ∃ new, (s.run events).returned = s.returned ++ new ∧
      List.Forall₂ Returned.IsOf ((asked path events).filter isReturned) new ∧
        IsRecorded path (s.run events) := by
  induction events generalizing s with
  | nil => exact ⟨[], (List.append_nil _).symm, .nil, h⟩
  | cons event events ih =>
    rw [List.forall_mem_cons] at hevents
    cases event with
    | query time q written =>
      obtain ⟨⟨rfl, hq⟩, hevents⟩ := hevents
      obtain ⟨first, hfirst, hisOf, hstep⟩ := h.step_query hq time
      obtain ⟨rest, hrest, hall, hrun⟩ := ih hstep hevents
      refine ⟨first ++ rest, ?_, ?_, hrun⟩
      · rw [run, List.foldl_cons, ← run, hrest, hfirst, List.append_assoc]
      · have hasked : asked path (.query time q true :: events) =
            [(path, time, q)] ++ asked path events := rfl
        rw [hasked, List.filter_append]
        exact List.rel_append hisOf hall
    | restart => exact ih h.restart hevents.2
    | turn path' => exact absurd hevents.1 id
    | foreign path' line => exact absurd hevents.1 id

theorem isRecorded_start {d : Directory} (habsent : d.find path = .absent)
    (htarget : (d.target? path).isSome) : IsRecorded path (start d path) :=
  ⟨isKept_start (areAbsent_singleton habsent htarget) (List.mem_singleton_self path), habsent⟩

/-- **Reading back.** A process logs queries to one file that was not there, no line is lost, and
the process may be started anew at any time. Every query returns an entry unless an integer of it
has too many digits. Of the entries that were returned any positive number is read back, the newest
first; they are read as they are exactly if no text in them has two surrogates that make a pair. A
service that sends values as standard JSON shows the newest entries, at least one and at most two
hundred, if all values in them can be sent. -/
theorem entries_read_back {d : Directory} (habsent : d.find path = .absent)
    (htarget : (d.target? path).isSome) (hevents : ∀ e ∈ events, e.IsOwn) :
    let s := (start d path).run events
    let es := s.returned.map (·.entry)
    List.Forall₂ Returned.IsOf ((asked path events).filter isReturned) s.returned ∧
    (∀ limit : Int, 0 < limit →
      recent s.directory path limit = .ok (newest es limit.toNat) ∧
      (newest es limit.toNat = (es.reverse.take limit.toNat).map .obj ↔
        ∀ e ∈ es.reverse.take limit.toNat, ∀ f ∈ e, f.2.joined = f.2)) ∧
    ∀ server : Server, server.frontend.SendsStandard → ∀ limit : Int,
      { server with directory := s.directory, auditPath := path }.newestQueries limit =
        replyOf es (max 1 (min limit 200)).toNat := by
  intro s es
  obtain ⟨new, hnew, hall, hrecorded⟩ := (isRecorded_start habsent htarget).run hevents
  rw [show new = s.returned from hnew.symm] at hall
  have hlogged : ∀ e ∈ es, IsLogged e := List.forall_mem_map.2 fun r hr =>
    ⟨hrecorded.kept.entry r hr, exists_entry_of_isOf hall r hr⟩
  refine ⟨hall, fun limit hlimit =>
    ⟨recent_eq hrecorded.content hrecorded.isEntry hlimit, newest_eq_iff⟩, ?_⟩
  exact fun server hfe limit => Server.newestQueries_eq
    (s := { server with directory := s.directory, auditPath := path }) hfe hrecorded.content
      hlogged limit

/-! ### Two calls -/

/-- A query is logged, the process is started anew, and the query is logged again. -/
def restartedCalls : List Event :=
  [.query sampleTime sampleQuery true, .restart, .query sampleTime sampleQuery true]

theorem isOwn_of_mem_restartedCalls : ∀ e ∈ restartedCalls, e.IsOwn := by
  have hquery := hasParts_of_mem_sampleQuery
  simpa [restartedCalls, Event.IsOwn] using hquery

theorem returned_restartedCalls : ∃ h₁ h₂ : String,
    (((start ⟨[], []⟩ "audit.jsonl").run restartedCalls).returned.map (·.entry)) =
      [sampleQuery.entry sampleTime (.str h₁), sampleQuery.entry sampleTime (.str h₂)] := by
  have hstart := isRecorded_start find_absent_sample target_sample
  have hsize : ∀ v ∈ sampleQuery.values, v.isWritable := by decide
  obtain ⟨h₁, hfirst, hrecorded⟩ :=
    hstart.step_query_of_isWritable hasParts_of_mem_sampleQuery hsize sampleTime
  obtain ⟨h₂, hsecond, -⟩ :=
    hrecorded.restart.step_query_of_isWritable hasParts_of_mem_sampleQuery hsize sampleTime
  have hrestart : ∀ s : History, (s.step .restart).returned = s.returned := fun _ => rfl
  refine ⟨h₁, h₂, ?_⟩
  rw [run, restartedCalls, List.foldl_cons, List.foldl_cons, List.foldl_cons, List.foldl_nil,
    hsecond, hrestart, hfirst]
  rfl

/-- What is read of an entry is the entry, if this is so of the values of the query. -/
theorem joined_of_mem_entry {time : Instant} {previous : String}
    (hq : ∀ v ∈ q.values, v.isRegular) : ∀ f ∈ q.entry time (.str previous), f.2.joined = f.2 :=
  joinedFields_eq_self_iff.1
    (Query.joinedFields_entry_eq_iff.2
      ⟨fun v hv => Json.joined_of_isRegular (hq v hv), congrArg _ (Text.joined_ofChars _)⟩)

/-- Both entries are read back, and the newest one is shown. -/
theorem entries_read_back_restarted :
    let s := (start ⟨[], []⟩ "audit.jsonl").run restartedCalls
    ∃ e₁ e₂, s.returned.map (·.entry) = [e₁, e₂] ∧
      recent s.directory "audit.jsonl" 5 = .ok [.obj e₂, .obj e₁] ∧
      { Server.initial with directory := s.directory, auditPath := "audit.jsonl" }.newestQueries 0 =
        .json 200 (.obj [("queries", .arr [.obj e₂]), ("total", .int 1)]) := by
  intro s
  obtain ⟨-, hrecent, hshown⟩ :=
    entries_read_back find_absent_sample target_sample isOwn_of_mem_restartedCalls
  obtain ⟨h₁, h₂, hes⟩ := returned_restartedCalls
  have hjoined : ∀ h : String, ∀ f ∈ sampleQuery.entry sampleTime (.str h), f.2.joined = f.2 :=
    fun h => joined_of_mem_entry (by decide)
  have hsendable : ∀ f ∈ sampleQuery.entry sampleTime (.str h₂), f.2.isSendable :=
    (Query.forall_mem_entry_iff (P := fun v => v.isSendable) fun h =>
      Text.isProper_ofChars h.toList).2 ⟨by decide, Text.isProper_ofChars h₂.toList⟩
  have hread : recent s.directory "audit.jsonl" 5 = .ok (newest (s.returned.map (·.entry)) 5) :=
    (hrecent 5 (by decide)).1
  have hreply :
      { Server.initial with directory := s.directory, auditPath := "audit.jsonl" }.newestQueries 0 =
        replyOf (s.returned.map (·.entry)) 1 :=
    hshown Server.initial Frontend.sendsStandard_standard 0
  rw [hes] at hread hreply
  refine ⟨_, _, hes, ?_, ?_⟩
  · rw [hread, newest_eq_iff.2]
    · rfl
    · exact List.forall_mem_cons.2 ⟨hjoined h₂, List.forall_mem_singleton.2 (hjoined h₁)⟩
  · rw [hreply, replyOf, if_pos, shown, newest_eq_iff.2]
    · rfl
    · exact List.forall_mem_singleton.2 (hjoined h₂)
    · refine List.forall_mem_singleton.2 fun f hf => ?_
      rw [hjoined h₂ f hf]
      exact hsendable f hf

/-- A query that took infinitely long. -/
def endlessQuery : Query := { sampleQuery with elapsed := .float (.infinite false) }

/-- An entry with an infinite number is read back, but the service does not show it. -/
theorem not_shown_endless :
    let s := (start ⟨[], []⟩ "audit.jsonl").run [.query sampleTime endlessQuery true]
    ∃ e, s.returned.map (·.entry) = [e] ∧ recent s.directory "audit.jsonl" 1 = .ok [.obj e] ∧
      { Server.initial with directory := s.directory, auditPath := "audit.jsonl" }.newestQueries 0 =
        .internalError := by
  intro s
  have hparts : ∀ v ∈ endlessQuery.values, v.hasParts = false := by decide
  obtain ⟨previous, hreturned, hrecorded⟩ :=
    (isRecorded_start find_absent_sample target_sample).step_query_of_isWritable hparts
      (by decide) sampleTime
  have hes : s.returned.map (·.entry) = [endlessQuery.entry sampleTime (.str previous)] :=
    congrArg (List.map fun r : Returned => r.entry) hreturned
  have hcontent : s.directory.find "audit.jsonl" = contentOf (s.returned.map (·.entry)) :=
    hrecorded.content
  have hentry : ∀ e ∈ s.returned.map (·.entry), IsEntry e := hrecorded.isEntry
  rw [hes] at hcontent hentry
  have hlogged : ∀ e ∈ [endlessQuery.entry sampleTime (.str previous)], IsLogged e := fun e he =>
    ⟨hentry e he, ⟨_, _, _, List.mem_singleton.1 he⟩⟩
  refine ⟨_, hes, ?_, ?_⟩
  · rw [recent_eq hcontent hentry (by decide), newest_eq_iff.2]
    · rfl
    · exact List.forall_mem_singleton.2 (joined_of_mem_entry (by decide))
  · have hreply := Server.newestQueries_eq
      (s := { Server.initial with directory := s.directory, auditPath := "audit.jsonl" })
      Frontend.sendsStandard_standard hcontent hlogged 0
    rw [hreply, replyOf, if_neg]
    -- The time that the query took cannot be sent.
    have helapsed : (Text.ofString "elapsed_ms", .float (.infinite false)) ∈
        endlessQuery.entry sampleTime (.str previous) := by
      simp [Query.entry, Query.fields, endlessQuery]
    exact fun hall => absurd (hall _ (List.mem_singleton_self _) _ helapsed) (by decide)

end History

end Audit

end Dialectic
