import Dialectic.Proofs.History

/-!
# Lines that get lost

The chain moves on when an entry is returned, whether its line is written or gets lost. So the entry
after a lost one names a hash that is in no line of the file, and the entries of the file do not
stand the check, unless two hashes happen to be equal (`verify_readable_iff`).
-/

namespace Dialectic.Audit

namespace History

variable {s : History} {path : String}

/-! ## Neighbours in a chain -/

/-- An entry of a chain follows the last one before it. -/
theorem follows_of_isChained {a lost b : List Returned} {x y : Returned}
    (h : IsChained ((a ++ x :: lost ++ y :: b).map (·.entry))) :
    Follows (lost.getLast?.getD x).entry y.entry := by
  have hneighbours := List.isChain_iff_forall_rel_of_append_cons_cons.1 h.follows
  rcases List.eq_nil_or_concat lost with rfl | ⟨lost, z, rfl⟩
  · have hsplit : (a ++ [x] ++ y :: b).map (·.entry) =
        a.map (·.entry) ++ x.entry :: y.entry :: b.map (·.entry) := by simp
    exact hneighbours hsplit
  · have hsplit : (a ++ x :: lost.concat z ++ y :: b).map (·.entry) =
        (a ++ x :: lost).map (·.entry) ++ z.entry :: y.entry :: b.map (·.entry) := by simp
    rw [List.concat_eq_append, List.getLast?_concat, Option.getD_some]
    exact hneighbours hsplit

/-- Neighbours among the written entries are those with only lost ones between them. -/
theorem isChain_written_iff {r : List (Text × Json) → List (Text × Json) → Prop}
    {l : List Returned} :
    ((l.filter (·.written)).map (·.entry)).IsChain r ↔
      ∀ a x lost y b, l = a ++ x :: lost ++ y :: b → x.written → y.written →
        (∀ z ∈ lost, ¬ z.written) → r x.entry y.entry := by
  rw [List.isChain_map, List.isChain_iff_forall_rel_of_append_cons_cons]
  constructor
  · rintro h a x lost y b rfl hx hy hlost
    have hfilter : (a ++ x :: lost ++ y :: b).filter (·.written) =
        a.filter (·.written) ++ x :: y :: b.filter (·.written) := by
      simp [List.filter_eq_nil_iff.2 hlost, hx, hy]
    exact h hfilter
  · intro h x y l₁ l₂ hfilter
    -- What stands between two neighbours that were kept was all left out.
    obtain ⟨m₁, m₂, rfl, -, hrest⟩ := List.filter_eq_append_iff.1 hfilter
    obtain ⟨n, rest, rfl, -, hx, hrest⟩ := List.filter_eq_cons_iff.1 hrest
    obtain ⟨lost, b, rfl, hlost, hy, -⟩ := List.filter_eq_cons_iff.1 hrest
    exact h (m₁ ++ n) x lost y b (by simp) hx hy hlost

/-! ## One file -/

/-- What stays as it is as long as a process logs queries to one file that was not there: the chain
is remembered as soon as an entry was returned. -/
structure IsAlone (path : String) (s : History) : Prop where
  kept : IsKept [path] s
  linked : IsLinked s
  path_eq : s.path = path
  returned : ∀ r ∈ s.returned, r.path = path
  remembered : s.chain.path ≠ some path → s.returned = []

/-- All that was returned was returned for the one file. -/
theorem IsAlone.returnedOn_eq (h : IsAlone path s) :
    s.returnedOn path = s.returned.map (·.entry) := by
  have hall : s.returned.filter (fun r => r.path = path) = s.returned :=
    List.filter_eq_self.2 fun r hr => by simp [h.returned r hr]
  rw [returnedOn, hall]

/-- What was written to it is what was not lost. -/
theorem IsAlone.writtenOn_eq (h : IsAlone path s) :
    s.writtenOn path = (s.returned.filter (·.written)).map (·.entry) := by
  have hfilter : (s.returned.filter fun r => r.path = path ∧ r.written) =
      s.returned.filter (·.written) :=
    List.filter_congr fun r hr => by simp [h.returned r hr]
  rw [writtenOn, hfilter]

/-- A query is logged to the same file. -/
theorem IsAlone.step {time : Instant} {q : Query} {written : Bool} (h : IsAlone path s)
    (hq : ∀ v ∈ q.values, isArgument v) : IsAlone path (s.step (.query time q written)) := by
  have hkept : IsKept [path] (s.step (.query time q written)) := h.kept.step hq
  have hlinked : IsLinked (s.step (.query time q written)) := by
    -- The file is read once only, before the first entry, when no line can have been lost.
    refine h.linked.step_query h.kept (fun hchain => ?_) time q written
    rw [h.path_eq] at hchain
    rw [writtenOn, returnedOn, h.remembered hchain]
    rfl
  obtain hstep | ⟨c, hfor, hstep | ⟨-, hstep⟩⟩ := s.step_query time q written
  · rwa [hstep]
  · rw [hstep] at hkept hlinked ⊢
    refine ⟨hkept, hlinked, h.path_eq, h.returned, fun hchain => ?_⟩
    rw [← h.path_eq] at hchain
    exact absurd (for_eq_ok hfor).1 hchain
  · rw [hstep] at hkept hlinked ⊢
    refine ⟨hkept, hlinked, h.path_eq, ?_, fun hchain => ?_⟩
    · exact List.forall_mem_append.2 ⟨h.returned, List.forall_mem_singleton.2 h.path_eq⟩
    · rw [← h.path_eq] at hchain
      exact absurd rfl hchain

/-- So are any queries. -/
theorem IsAlone.run {calls : List (Instant × Query × Bool)} (h : IsAlone path s)
    (hcalls : ∀ c ∈ calls, ∀ v ∈ c.2.1.values, isArgument v) :
    IsAlone path (s.run (calls.map fun c => .query c.1 c.2.1 c.2.2)) := by
  induction calls generalizing s with
  | nil => exact h
  | cons c calls ih =>
    rw [List.forall_mem_cons] at hcalls
    exact ih (h.step hcalls.1) hcalls.2

theorem isAlone_start {d : Directory} (habsent : d.find path = .absent)
    (htarget : (d.target? path).isSome) : IsAlone path (start d path) :=
  ⟨isKept_start (areAbsent_singleton habsent htarget) (List.mem_singleton_self path),
    isLinked_start d path, rfl, by simp [start], fun _ => rfl⟩

/-- The file holds the entries whose lines were written. -/
theorem IsAlone.readable_eq (h : IsAlone path s) :
    readable s.directory path = (s.returned.filter (·.written)).map fun r => reading r.entry := by
  rw [(h.kept.holds path (by simp)).readable_eq, h.writtenOn_eq, List.map_map]
  rfl

/-- The entries of the file stand the check exactly if each of them follows the one before it. -/
theorem IsAlone.verify_iff (h : IsAlone path s) :
    verify ((readable s.directory path).map (·.2)) = .ok true ↔
      ((s.returned.filter (·.written)).map (·.entry)).IsChain Follows := by
  rw [← h.writtenOn_eq]
  exact (h.kept.holds path (by simp)).verify_iff h.kept.isEntry_of_mem_writtenOn

/-! ### Three calls -/

/-- Three calls, with whether their lines are written. -/
def sampleCalls (w₁ w₂ w₃ : Bool) : List (Instant × Query × Bool) :=
  [(sampleTime, sampleQuery, w₁), (sampleTime, sampleQuery, w₂), (sampleTime, sampleQuery, w₃)]

/-- What three calls on a file that was not there come to. -/
def sampleRun (w₁ w₂ w₃ : Bool) : History :=
  (start ⟨[], []⟩ "audit.jsonl").run ((sampleCalls w₁ w₂ w₃).map fun c => .query c.1 c.2.1 c.2.2)

/-- The hash of the first sample entry. -/
theorem hash_first : hash (sampleQuery.entry sampleTime (.str genesis)) = "a6b1c47e63ca268f" := by
  rw [Query.hash_entry_eq isArgument_of_mem_sampleQuery]
  decide +kernel

/-- The hash of the second one, which names the first. -/
theorem hash_second :
    hash (sampleQuery.entry sampleTime (.str "a6b1c47e63ca268f")) = "49c674b57920f538" := by
  rw [Query.hash_entry_eq isArgument_of_mem_sampleQuery]
  decide +kernel

theorem isArgument_of_mem_sampleCalls (w₁ w₂ w₃ : Bool) :
    ∀ c ∈ sampleCalls w₁ w₂ w₃, ∀ v ∈ c.2.1.values, isArgument v := by
  simpa [sampleCalls] using isArgument_of_mem_sampleQuery

/-- Which lines are written makes no difference to what is returned. -/
theorem returned_sampleCalls (w₁ w₂ w₃ : Bool) :
    (sampleRun w₁ w₂ w₃).returned =
      [⟨"audit.jsonl", sampleQuery.entry sampleTime (.str genesis), w₁⟩,
       ⟨"audit.jsonl", sampleQuery.entry sampleTime (.str "a6b1c47e63ca268f"), w₂⟩,
       ⟨"audit.jsonl", sampleQuery.entry sampleTime (.str "49c674b57920f538"), w₃⟩] := by
  have hrun : sampleRun w₁ w₂ w₃ =
      (((start ⟨[], []⟩ "audit.jsonl").step (.query sampleTime sampleQuery w₁)).step
        (.query sampleTime sampleQuery w₂)).step (.query sampleTime sampleQuery w₃) := rfl
  rw [hrun, step_query_eq start_for_sample (isHashable_sampleQuery genesis),
    step_query_record (isHashable_sampleQuery _), step_query_record (isHashable_sampleQuery _),
    hash_first, hash_second]
  rfl

/-! ## When the entries stand the check -/

/-- **Lost lines.** A process logs queries to one file that was not there, and the lines of some of
them get lost. The file holds the entries whose lines were written, and these stand the check
exactly if, wherever lines were lost between two of them, the last lost entry has the same hash as
the entry before. -/
theorem verify_readable_iff {d : Directory} (habsent : d.find path = .absent)
    (htarget : (d.target? path).isSome) {calls : List (Instant × Query × Bool)}
    (hcalls : ∀ c ∈ calls, ∀ v ∈ c.2.1.values, isArgument v) :
    let s := (start d path).run (calls.map fun c => .query c.1 c.2.1 c.2.2)
    readable s.directory path = (s.returned.filter (·.written)).map (fun r => reading r.entry) ∧
    (verify ((readable s.directory path).map (·.2)) = .ok true ↔
      ∀ a x lost y b, s.returned = a ++ x :: lost ++ y :: b → x.written → y.written →
        (∀ z ∈ lost, ¬ z.written) → hash (lost.getLast?.getD x).entry = hash x.entry) := by
  intro s
  have halone : IsAlone path s := (isAlone_start habsent htarget).run hcalls
  have hchained : IsChained (s.returned.map (·.entry)) := by
    rw [← halone.returnedOn_eq]
    exact halone.linked.chained path
  refine ⟨halone.readable_eq, ?_⟩
  rw [halone.verify_iff, isChain_written_iff]
  refine forall₅_congr fun a x lost y b => forall_congr' fun hsplit => ?_
  -- The second entry names the hash of the last entry that was lost, or of the first one if none
  -- was.
  have hiff : Follows x.entry y.entry ↔ hash (lost.getLast?.getD x).entry = hash x.entry := by
    rw [hsplit] at hchained
    have hfollows := follows_of_isChained hchained
    rw [Follows] at hfollows ⊢
    rw [hfollows, Option.some.injEq, Json.str.injEq]
    exact ⟨fun heq => Text.ofString_injective heq, fun heq => by rw [heq]⟩
  rw [hiff]

/-- Of three entries the first one gets lost, and the other two stand the check. If it is the second
one, the two that are written do not. -/
theorem verify_readable_iff_first_or_second_lost :
    ((readable (sampleRun false true true).directory "audit.jsonl").length = 2 ∧
      verify ((readable (sampleRun false true true).directory "audit.jsonl").map (·.2)) =
        .ok true) ∧
    (readable (sampleRun true false true).directory "audit.jsonl").length = 2 ∧
      verify ((readable (sampleRun true false true).directory "audit.jsonl").map (·.2)) ≠
        .ok true := by
  constructor
  · obtain ⟨hread, hiff⟩ := verify_readable_iff find_absent_sample target_sample
      (isArgument_of_mem_sampleCalls false true true)
    have hreturned := returned_sampleCalls false true true
    rw [sampleRun] at hreturned ⊢
    refine ⟨?_, hiff.2 fun a x lost y b hsplit hx hy hlost => ?_⟩
    · rw [hread, hreturned]
      rfl
    · -- All entries but the first are written, and the first is not between two others.
      rw [hreturned] at hsplit
      obtain rfl : lost = [] := by
        refine List.eq_nil_iff_forall_not_mem.2 fun z hz => hlost z hz ?_
        have htail := congrArg List.tail hsplit
        have hmem : z ∈ (a ++ x :: lost ++ y :: b).tail := by
          cases a <;> simp [hz]
        rw [← htail] at hmem
        simp only [List.tail_cons, List.mem_cons, List.not_mem_nil, or_false] at hmem
        obtain rfl | rfl := hmem <;> rfl
      rfl
  · obtain ⟨hread, hiff⟩ := verify_readable_iff find_absent_sample target_sample
      (isArgument_of_mem_sampleCalls true false true)
    have hreturned := returned_sampleCalls true false true
    rw [sampleRun] at hreturned ⊢
    refine ⟨?_, fun hverify => ?_⟩
    · rw [hread, hreturned]
      rfl
    · -- The lost entry has another hash than the one before it.
      have hhash := hiff.1 hverify [] _ [_] _ [] hreturned rfl rfl (by simp)
      rw [List.getLast?_singleton, Option.getD_some, hash_first, hash_second] at hhash
      exact absurd hhash (by decide)

/-- Of three entries the second one gets lost. The third names its hash, and so the two that are
written do not stand the check. -/
theorem verify_readable_second_lost :
    let s := sampleRun true false true
    (readable s.directory "audit.jsonl").length = 2 ∧
      verify ((readable s.directory "audit.jsonl").map (·.2)) ≠ .ok true := by
  intro s
  have halone : IsAlone "audit.jsonl" s :=
    (isAlone_start find_absent_sample target_sample).run
      (isArgument_of_mem_sampleCalls true false true)
  have hreturned : s.returned = _ := returned_sampleCalls true false true
  refine ⟨?_, ?_⟩
  · rw [halone.readable_eq, hreturned]
    rfl
  · rw [Ne, halone.verify_iff, hreturned]
    intro hchain
    have hfollows : Follows (sampleQuery.entry sampleTime (.str genesis))
        (sampleQuery.entry sampleTime (.str "49c674b57920f538")) :=
          (List.isChain_cons_cons.1 hchain).1
    rw [Follows, Query.get?_previous_entry, hash_first, Option.some.injEq,
      Json.str.injEq] at hfollows
    exact absurd (Text.ofString_injective hfollows) (by decide)

end History

end Dialectic.Audit
