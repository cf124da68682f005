import Dialectic.Proofs.LogFile

/-!
# Histories of the audit log

A process logs queries, is started anew, and turns from one file to another, while others write
lines of their own to the files; the line of a query may get lost. What one event does is told by
`step_query`; what every event leaves as it is are the invariants `IsKept`, for the files, and
`IsLinked`, for the chain. A history in which no line is lost keeps the two together
(`IsWhole.run`).
-/

namespace Dialectic.Audit

/-! ## Submitting a query -/

/-- A chain that is taken up is that of the file, anew if it was that of another file. -/
theorem for_eq_ok {c c' : Chain} {d : Directory} {path : String} (h : c.for d path = .ok c') :
    c'.path = some path ∧ (c.path = some path → c' = c) ∧
      (c.path ≠ some path → lastHash d path = .ok c'.previous) := by
  unfold Chain.for at h
  split at h
  · rename_i hpath
    obtain rfl := Except.ok.inj h
    exact ⟨hpath, fun _ => rfl, fun hne => absurd hpath hne⟩
  · rename_i hpath
    obtain ⟨v, hlast, rfl⟩ := map_eq_ok_iff.1 h
    exact ⟨rfl, fun heq => absurd heq hpath, fun _ => hlast⟩

/-- A process that was just started takes up the chain from the file. -/
theorem fresh_for (d : Directory) (path : String) :
    Chain.fresh.for d path = (lastHash d path).map fun h => ⟨h, some path⟩ :=
  if_neg (by simp [Chain.fresh])

/-- An entry that has a hash is logged, and the chain moves on to it. -/
theorem submit_eq {c c' : Chain} {d : Directory} {path : String} (hfor : c.for d path = .ok c')
    {time : Instant} {q : Query} (hsize : isHashable (q.fields time c'.previous)) :
    submit c d path time q =
      (⟨.str (hash (q.entry time c'.previous)), some path⟩,
        .ok ⟨⟨.str (hash (q.entry time c'.previous)), some path⟩,
          d.append path (Text.Utf8.encode (lineOf (q.entry time c'.previous))),
            q.entry time c'.previous⟩) := by
  have hpath := (for_eq_ok hfor).1
  have hagain : c'.for d path = .ok c' := by
    rw [Chain.for, if_pos hpath]
  rw [submit, hfor]
  simp only [takeHash_of_isHashable hsize, log, hagain, bind, Except.bind, pure, Except.pure,
    Query.get?_hash_entry, Option.getD_some, hpath]

/-- Where no hash can be taken nothing is logged, but the chain was taken up. -/
theorem exists_submit_eq_error {c c' : Chain} {d : Directory} {path : String}
    (hfor : c.for d path = .ok c') {time : Instant} {q : Query}
    (hsize : ¬ isHashable (q.fields time c'.previous)) :
    ∃ e, submit c d path time q = (c', .error e) := by
  obtain ⟨e, he⟩ := exists_takeHash_eq_error hsize
  refine ⟨.write e, ?_⟩
  rw [submit, hfor]
  simp only [he]

/-! ## Events -/

/-- An entry that was returned. -/
structure Returned where
  /-- The file it was logged to. -/
  path : String
  /-- The fields of the entry. -/
  entry : List (Text × Json)
  /-- Whether its line was written. -/
  written : Bool

/-- A process that logs queries, the directory it logs them to, and what it returned so far. -/
structure History where
  /-- What the process remembers of the chain. -/
  chain : Chain
  /-- The directory of the logs. -/
  directory : Directory
  /-- The file that the process logs to. -/
  path : String
  /-- The entries that were returned, the first one first. -/
  returned : List Returned

/-- What happens to a process and its logs. -/
inductive Event where
  /-- A query is logged; its line is written or gets lost. -/
  | query (time : Instant) (q : Query) (written : Bool)
  /-- The process is started anew. -/
  | restart
  /-- The process turns to another file. -/
  | turn (path : String)
  /-- Another writer appends a line to a file. -/
  | foreign (path : String) (line : List Char)

/-- Whether an event is dealt with: the values of a query have no parts, the process turns to one of
the files, and what others append to them are whole lines that are no JSON texts when they are
trimmed. -/
def Event.IsAdmissible (names : List String) : Event → Prop
  | .query _ q _ => ∀ v ∈ q.values, isArgument v
  | .restart => True
  | .turn path => path ∈ names
  | .foreign path line => path ∈ names ∧ IsForeign line

/-- Whether no line gets lost at an event. -/
def Event.isWritten : Event → Bool
  | .query _ _ written => written
  | _ => true

namespace History

/-- A process that has just been started. -/
def start (d : Directory) (path : String) : History := ⟨.fresh, d, path, []⟩

/-- One event. -/
def step (s : History) : Event → History
  | .query time q written =>
    match submit s.chain s.directory s.path time q with
    | (c, .ok logged) =>
      { s with
        chain := c
        directory := if written then logged.directory else s.directory
        returned := s.returned ++ [⟨s.path, logged.entry, written⟩] }
    | (c, .error _) => { s with chain := c }
  | .restart => { s with chain := .fresh }
  | .turn path => { s with path := path }
  | .foreign path line =>
    { s with directory := s.directory.append path (Text.Utf8.encode (line ++ ['\n'])) }

/-- All events in turn. -/
def run (s : History) (events : List Event) : History := events.foldl step s

/-- The entries that were returned for a file. -/
def returnedOn (s : History) (path : String) : List (List (Text × Json)) :=
  (s.returned.filter fun r => r.path = path).map (·.entry)

/-- The entries of a file whose lines were written. -/
def writtenOn (s : History) (path : String) : List (List (Text × Json)) :=
  (s.returned.filter fun r => r.path = path ∧ r.written).map (·.entry)

/-- The history with a chain taken up. -/
def takeUp (s : History) (c : Chain) : History := { s with chain := c }

/-- The history with an entry returned, and its line written or lost. -/
def record (s : History) (e : List (Text × Json)) (written : Bool) : History where
  chain := ⟨.str (hash e), some s.path⟩
  directory := if written then s.directory.append s.path (Text.Utf8.encode (lineOf e))
    else s.directory
  path := s.path
  returned := s.returned ++ [⟨s.path, e, written⟩]

variable {s : History}

/-- A query that can be hashed is recorded with the hash before it. -/
theorem step_query_eq {c : Chain} (hfor : s.chain.for s.directory s.path = .ok c) {time : Instant}
    {q : Query} (hsize : isHashable (q.fields time c.previous)) (written : Bool) :
    s.step (.query time q written) = (s.takeUp c).record (q.entry time c.previous) written := by
  rw [step, submit_eq hfor hsize]
  rfl

/-- After an entry the chain goes on from it, whether its line was written or got lost. -/
theorem step_query_record {e : List (Text × Json)} {written : Bool} {time : Instant} {q : Query}
    (hsize : isHashable (q.fields time (.str (hash e)))) (written' : Bool) :
    (s.record e written).step (.query time q written') =
      (s.record e written).record (q.entry time (.str (hash e))) written' := by
  refine step_query_eq (c := ⟨.str (hash e), some s.path⟩) ?_ hsize written'
  exact if_pos rfl

/-- What a query does: nothing, or the chain is taken up for the file, and then the entry may be
recorded. -/
theorem step_query (s : History) (time : Instant) (q : Query) (written : Bool) :
    s.step (.query time q written) = s ∨
    ∃ c, s.chain.for s.directory s.path = .ok c ∧
      (s.step (.query time q written) = s.takeUp c ∨
        (isHashable (q.fields time c.previous) ∧
          s.step (.query time q written) = (s.takeUp c).record (q.entry time c.previous)
            written)) := by
  cases hfor : s.chain.for s.directory s.path with
  | error err =>
    rw [step, submit, hfor]
    exact .inl rfl
  | ok c =>
    refine .inr ⟨c, rfl, ?_⟩
    by_cases hsize : isHashable (q.fields time c.previous)
    · exact .inr ⟨hsize, step_query_eq hfor hsize written⟩
    · obtain ⟨err, herr⟩ := exists_submit_eq_error hfor hsize
      rw [step, herr]
      exact .inl rfl

/-! ## What is kept in the files -/

theorem returnedOn_record (s : History) (e : List (Text × Json)) (written : Bool) (path : String) :
    (s.record e written).returnedOn path =
      s.returnedOn path ++ if s.path = path then [e] else [] := by
  by_cases hpath : s.path = path <;> simp [returnedOn, record, hpath]

theorem writtenOn_record (s : History) (e : List (Text × Json)) (written : Bool) (path : String) :
    (s.record e written).writtenOn path =
      s.writtenOn path ++ if s.path = path ∧ written then [e] else [] := by
  by_cases hpath : s.path = path <;> cases written <;> simp [writtenOn, record, hpath]

/-- What every event leaves as it is: the process logs to one of several different files, all of
which can be written; the chain has a hash; what was returned are entries; and every file holds
those that were written. -/
structure IsKept (names : List String) (s : History) : Prop where
  path : s.path ∈ names
  target : ∀ p ∈ names, (s.directory.target? p).isSome
  distinct : ∀ p ∈ names, ∀ p' ∈ names, s.directory.way? p = s.directory.way? p' → p = p'
  previous : ∃ h : String, s.chain.previous = .str h
  entry : ∀ r ∈ s.returned, IsEntry r.entry
  holds : ∀ p ∈ names, HoldsEntries s.directory p (s.writtenOn p)

variable {names : List String} {c : Chain} {e : List (Text × Json)} {q : Query} {time : Instant}
  {written : Bool}

/-- What was returned for a file are entries. -/
theorem IsKept.isEntry_of_mem_returnedOn (h : IsKept names s) {path : String} :
    ∀ e ∈ s.returnedOn path, IsEntry e := by
  intro e he
  obtain ⟨r, hr, rfl⟩ := List.mem_map.1 he
  exact h.entry r (List.mem_filter.1 hr).1

/-- So is what was written to it. -/
theorem IsKept.isEntry_of_mem_writtenOn (h : IsKept names s) {path : String} :
    ∀ e ∈ s.writtenOn path, IsEntry e := by
  intro e he
  obtain ⟨r, hr, rfl⟩ := List.mem_map.1 he
  exact h.entry r (List.mem_filter.1 hr).1

/-- The chain that is taken up for another file goes on from the last entry in it. -/
theorem IsKept.previous_of_for (h : IsKept names s) (hfor : s.chain.for s.directory s.path = .ok c)
    (hpath : s.chain.path ≠ some s.path) : c.previous = .str (headOf (s.writtenOn s.path)) :=
  lastHash_eq (h.holds s.path h.path).readable_eq h.isEntry_of_mem_writtenOn
    ((for_eq_ok hfor).2.2 hpath)

/-- Taking up a chain leaves the files alone, and the chain has a hash again. -/
theorem IsKept.takeUp (h : IsKept names s) (hfor : s.chain.for s.directory s.path = .ok c) :
    IsKept names (s.takeUp c) := by
  refine ⟨h.path, h.target, h.distinct, ?_, h.entry, h.holds⟩
  by_cases hpath : s.chain.path = some s.path
  · obtain rfl := (for_eq_ok hfor).2.1 hpath
    exact h.previous
  · exact ⟨_, h.previous_of_for hfor hpath⟩

/-- What is appended to one of the files changes nothing but what is read of that file. -/
theorem IsKept.append {path : String} (h : IsKept names s) (hpath : path ∈ names)
    (bytes : List UInt8) :
    (∀ p ∈ names, ((s.directory.append path bytes).target? p).isSome) ∧
    (∀ p ∈ names, ∀ p' ∈ names, (s.directory.append path bytes).way? p =
      (s.directory.append path bytes).way? p' → p = p') ∧
    ∀ p ∈ names, p ≠ path → HoldsEntries (s.directory.append path bytes) p (s.writtenOn p) := by
  have hfolders := Directory.folders_append s.directory path bytes
  refine ⟨fun p hp => ?_, fun p hp p' hp' hway => ?_, fun p hp hne => ?_⟩
  · rw [Directory.target?_congr hfolders]
    exact h.target p hp
  · rw [Directory.way?_congr hfolders, Directory.way?_congr hfolders] at hway
    exact h.distinct p hp p' hp' hway
  · exact (h.holds p hp).append_of_ne (fun hway => hne (h.distinct path hpath p hp hway).symm) bytes

/-- A recorded entry is in the file of the process if its line was written, and no other file
changes. -/
theorem IsKept.record (h : IsKept names s) (he : IsEntry e) (written : Bool) :
    IsKept names (s.record e written) := by
  have hentry : ∀ r ∈ s.returned ++ [⟨s.path, e, written⟩], IsEntry r.entry :=
    List.forall_mem_append.2 ⟨h.entry, List.forall_mem_singleton.2 he⟩
  cases written with
  | false =>
    refine ⟨h.path, h.target, h.distinct, ⟨_, rfl⟩, hentry, fun p hp => ?_⟩
    rw [writtenOn_record, if_neg (by simp), List.append_nil]
    exact h.holds p hp
  | true =>
    obtain ⟨htarget, hdistinct, hother⟩ := h.append h.path (Text.Utf8.encode (lineOf e))
    refine ⟨h.path, htarget, hdistinct, ⟨_, rfl⟩, hentry, fun p hp => ?_⟩
    rw [writtenOn_record]
    -- The line stands in the file of the process and in no other.
    by_cases hpath : s.path = p
    · subst hpath
      rw [if_pos ⟨rfl, rfl⟩]
      exact (h.holds s.path h.path).append_entry (h.target s.path h.path) he
    · rw [if_neg (fun hboth => hpath hboth.1), List.append_nil]
      exact hother p hp (Ne.symm hpath)

/-- A line of another writer adds no entry to any file. -/
theorem IsKept.foreign (h : IsKept names s) {path : String} (hpath : path ∈ names)
    {line : List Char} (hline : IsForeign line) : IsKept names (s.step (.foreign path line)) := by
  obtain ⟨htarget, hdistinct, hother⟩ := h.append hpath (Text.Utf8.encode (line ++ ['\n']))
  refine ⟨h.path, htarget, hdistinct, h.previous, h.entry, fun p hp => ?_⟩
  by_cases hne : p = path
  · subst hne
    exact (h.holds p hpath).append_foreign (h.target p hpath) hline
  · exact hother p hp hne

/-- What holds before an event holds after it. -/
theorem IsKept.step {event : Event} (h : IsKept names s) (hevent : event.IsAdmissible names) :
    IsKept names (s.step event) := by
  cases event with
  | query time q written =>
    obtain hstep | ⟨c, hfor, hstep | ⟨hsize, hstep⟩⟩ := s.step_query time q written
    · rwa [hstep]
    · rw [hstep]
      exact h.takeUp hfor
    · -- Whatever hash the chain has, the entry that names it is an entry.
      rw [hstep]
      have htaken := h.takeUp hfor
      obtain ⟨previous, hprevious⟩ := htaken.previous
      rw [show c.previous = .str previous from hprevious] at hsize ⊢
      exact htaken.record (Query.isEntry hevent hsize) written
  | restart => exact ⟨h.path, h.target, h.distinct, ⟨_, rfl⟩, h.entry, h.holds⟩
  | turn path => exact ⟨hevent, h.target, h.distinct, h.previous, h.entry, h.holds⟩
  | foreign path line => exact h.foreign hevent.1 hevent.2

/-! ## How the chain goes on -/

/-- The chain of the file that is remembered goes on from the last entry that was returned for it,
and what was returned for a file is a chain. -/
structure IsLinked (s : History) : Prop where
  head : ∀ p, s.chain.path = some p → s.chain.previous = .str (headOf (s.returnedOn p))
  chained : ∀ p, IsChained (s.returnedOn p)

/-- A chain is taken up where it was left, if no line of the file was lost. -/
theorem IsLinked.takeUp (h : IsLinked s) (hkept : IsKept names s)
    (hfor : s.chain.for s.directory s.path = .ok c)
    (hwritten : s.chain.path ≠ some s.path → s.writtenOn s.path = s.returnedOn s.path) :
    IsLinked (s.takeUp c) := by
  refine ⟨fun p hp => ?_, h.chained⟩
  obtain ⟨hpath, hsame, -⟩ := for_eq_ok hfor
  obtain rfl : s.path = p := Option.some.inj (hpath.symm.trans hp)
  by_cases hchain : s.chain.path = some s.path
  · obtain rfl := hsame hchain
    exact h.head s.path hchain
  · -- The hash comes from the file, whose last entry is the last one that was returned for it.
    rw [show (s.takeUp c).chain.previous = c.previous
      from rfl, hkept.previous_of_for hfor hchain, hwritten hchain]
    rfl

/-- An entry that is recorded follows the last one of its file. -/
theorem IsLinked.record (h : IsLinked s) (hpath : s.chain.path = some s.path) (time : Instant)
    (q : Query) (written : Bool) : IsLinked (s.record (q.entry time s.chain.previous) written) := by
  refine ⟨fun p hp => ?_, fun p => ?_⟩
  · obtain rfl : s.path = p := Option.some.inj hp
    rw [returnedOn_record, if_pos rfl, headOf, List.getLast?_concat]
    rfl
  · rw [returnedOn_record]
    by_cases hp : s.path = p
    · subst hp
      rw [if_pos rfl]
      refine (h.chained s.path).concat ?_
      rw [Query.get?_previous_entry, h.head s.path hpath]
    · rw [if_neg hp, List.append_nil]
      exact h.chained p

/-- A query goes on with the chain, if no line of the file was lost or the chain is remembered. -/
theorem IsLinked.step_query (h : IsLinked s) (hkept : IsKept names s)
    (hwritten : s.chain.path ≠ some s.path → s.writtenOn s.path = s.returnedOn s.path)
    (time : Instant) (q : Query) (written : Bool) : IsLinked (s.step (.query time q written)) := by
  obtain hstep | ⟨c, hfor, hstep | ⟨-, hstep⟩⟩ := s.step_query time q written
  · rwa [hstep]
  · rw [hstep]
    exact h.takeUp hkept hfor hwritten
  · rw [hstep]
    exact (h.takeUp hkept hfor hwritten).record (for_eq_ok hfor).1 time q written

/-! ## Histories in which no line is lost -/

/-- If no line is lost, all that was returned was written. -/
theorem writtenOn_eq (h : ∀ r ∈ s.returned, r.written) (path : String) :
    s.writtenOn path = s.returnedOn path := by
  have hfilter : (s.returned.filter fun r => r.path = path ∧ r.written) = s.returned.filter fun r =>
      r.path = path := by
    refine List.filter_congr fun r hr => ?_
    simp [h r hr]
  rw [writtenOn, hfilter, returnedOn]

/-- A history in which no line was lost: its files hold what was returned for them, and that is a
chain. -/
structure IsWhole (names : List String) (s : History) : Prop where
  kept : IsKept names s
  linked : IsLinked s
  written : ∀ r ∈ s.returned, r.written

/-- An event that loses no line keeps the history whole. -/
theorem IsWhole.step {event : Event} (h : IsWhole names s) (hevent : event.IsAdmissible names)
    (hwritten : event.isWritten) : IsWhole names (s.step event) := by
  refine ⟨h.kept.step hevent, ?_, ?_⟩
  · cases event with
    | query time q written =>
      exact h.linked.step_query h.kept (fun _ => writtenOn_eq h.written s.path) time q written
    | restart =>
      exact ⟨fun p hp => absurd hp (by simp [History.step, Chain.fresh]), h.linked.chained⟩
    | turn path => exact ⟨h.linked.head, h.linked.chained⟩
    | foreign path line => exact ⟨h.linked.head, h.linked.chained⟩
  · cases event with
    | query time q written =>
      obtain hstep | ⟨c, -, hstep | ⟨-, hstep⟩⟩ := s.step_query time q written
      · rw [hstep]
        exact h.written
      · rw [hstep]
        exact h.written
      · rw [hstep]
        exact List.forall_mem_append.2 ⟨h.written, List.forall_mem_singleton.2 hwritten⟩
    | restart => exact h.written
    | turn path => exact h.written
    | foreign path line => exact h.written

theorem IsWhole.run {events : List Event} (h : IsWhole names s)
    (hevents : ∀ e ∈ events, e.IsAdmissible names) (hwritten : ∀ e ∈ events, e.isWritten) :
    IsWhole names (s.run events) := by
  induction events generalizing s with
  | nil => exact h
  | cons event events ih =>
    rw [List.forall_mem_cons] at hevents hwritten
    exact ih (h.step hevents.1 hwritten.1) hevents.2 hwritten.2

/-- Names of different files that can be written and are not there yet. -/
structure AreAbsent (d : Directory) (names : List String) : Prop where
  absent : ∀ p ∈ names, d.find p = .absent
  target : ∀ p ∈ names, (d.target? p).isSome
  distinct : ∀ p ∈ names, ∀ p' ∈ names, d.way? p = d.way? p' → p = p'

/-- One file that is not there makes a list of such files. -/
theorem areAbsent_singleton {d : Directory} {path : String} (habsent : d.find path = .absent)
    (htarget : (d.target? path).isSome) : AreAbsent d [path] :=
  ⟨by simpa using habsent, by simpa using htarget, by simp⟩

/-- It holds before anything happens: all files are absent. -/
theorem isKept_start {d : Directory} {path : String} (h : AreAbsent d names)
    (hpath : path ∈ names) : IsKept names (start d path) :=
  ⟨hpath, h.target, h.distinct, ⟨genesis, rfl⟩, by simp [start],
    fun p hp => holdsEntries_nil (h.absent p hp)⟩

theorem isLinked_start (d : Directory) (path : String) : IsLinked (start d path) :=
  ⟨fun _ hp => absurd hp (by simp [start, Chain.fresh]), fun _ => isChained_nil⟩

/-! ### A sample -/

/-- A query as the service logs it. -/
def sampleQuery : Query where
  requestId := .str "afs_req_00000001"
  semantics := .str "stable"
  frameworkHash := .str "0123456789abcdef"
  numArguments := .int 2
  numAttacks := .int 1
  numLabellings := .int 1
  elapsed := .float (Binary64.ofDecimal false 125 (-2))
  solver := .str "glucose4"
  skippedLines := .int 0

/-- A time of day. -/
def sampleTime : Instant := ⟨2024, 1, 2, 12, 0, 0, 0⟩

theorem isArgument_of_mem_sampleQuery : ∀ v ∈ sampleQuery.values, isArgument v := by
  decide +kernel

theorem find_absent_sample : Directory.find ⟨[], []⟩ "audit.jsonl" = .absent := by
  decide +kernel

theorem target_sample : (Directory.target? ⟨[], []⟩ "audit.jsonl").isSome := by
  decide +kernel

/-- A process that has just started takes up `genesis` from a file that is not there. -/
theorem start_for_sample : (start ⟨[], []⟩ "audit.jsonl").chain.for ⟨[], []⟩ "audit.jsonl" =
    .ok ⟨.str genesis, some "audit.jsonl"⟩ := by
  rw [start, fresh_for, lastHash_of_absent find_absent_sample target_sample]
  rfl

theorem isHashable_sampleQuery (h : String) :
    isHashable (sampleQuery.fields sampleTime (.str h)) := by
  rfl

end History

end Dialectic.Audit
