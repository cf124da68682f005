import Dialectic.Proofs.Labellings
import Dialectic.Proofs.Numerals
import Dialectic.Proofs.Reading
import Dialectic.Proofs.Views
import Dialectic.Service.Server

/-!
# Answers of the service

A request that breaks no rule comes to a sound framework or is refused with an explanation
(`isSound_of_report`, `exists_of_report_eq_error`). If the framework is not too large, the answer to
the request has all its labellings and shows them by name (`exists_answerWith_eq`); if it is, the
refusal says so, unless its size has too many digits to be said (`message_tooLarge`). Nothing else
comes of a request (`response_respondWith`). This is about what is handed over to be sent: a text
with surrogates cannot be sent, whatever it is in.
-/

namespace Dialectic

variable {σ : Type}

/-! ## Requests that break no rule -/

namespace FrameworkRequest

variable {r : FrameworkRequest} {report : Apx.Report}

/-- A request that breaks no rule. -/
structure IsValid (r : FrameworkRequest) : Prop where
  /-- It gives a framework in one way. -/
  isNone_ne : r.apx.isNone ≠ r.attacks.isNone
  /-- No number in it is negative. -/
  nonneg : ∀ p ∈ r.attacks.getD [], 0 ≤ p.1 ∧ 0 ≤ p.2
  /-- The names differ. -/
  nodup : (r.names.getD []).Nodup

/-- A request is valid if no rule is broken. -/
theorem isValid_of_broken?_eq_none (h : r.broken? = none) : r.IsValid := by
  unfold broken? at h
  split at h
  · cases h
  · rename_i hsource
    split at h
    · cases h
    · split at h
      · cases h
      · rename_i hnonneg
        split at h
        · cases h
        · rename_i hnodup
          refine ⟨hsource, fun p hp => ?_, not_not.1 hnodup⟩
          have hp' : ¬ (decide (p.1 < 0) || decide (p.2 < 0)) = true :=
            fun h => hnonneg (List.any_eq_true.2 ⟨p, hp, h⟩)
          simpa using hp'

/-- However fields are read, a request that is read from an object is valid. -/
theorem isValid_of_ofObject {read : List (Text × Json) → Validated FrameworkRequest}
    {fields : List (Text × Json)} (h : ofObject read fields = .ok r) : r.IsValid := by
  obtain ⟨r', -, h⟩ := bind_eq_ok_iff.1 h
  split at h
  · cases h
  · rename_i hbroken
    obtain rfl : r' = r := Except.ok.inj h
    exact isValid_of_broken?_eq_none hbroken

/-- What a valid request gives is sound, whichever way it gives it. -/
theorem isSound_of_report (h : r.IsValid) (hr : r.report = .ok report) :
    report.framework.IsSound := by
  unfold FrameworkRequest.report at hr
  split at hr
  · exact Apx.isSound_of_read (mapError_eq_ok_iff.1 hr)
  · split at hr
    · rename_i names hnames
      obtain ⟨f, hf, rfl⟩ := map_eq_ok_iff.1 (mapError_eq_ok_iff.1 hr)
      have hkeys : ((Framework.numbered names).map (·.1)).Nodup := by
        rw [Framework.keys_numbered]
        simpa [hnames] using h.nodup
      exact Framework.isSound_of_ofNamed hkeys hf
    · obtain rfl := Except.ok.inj hr
      refine Framework.isSound_ofAttacks_iff.2 ?_
      rw [List.forall_mem_map]
      exact h.nonneg

/-- A request that gives no framework has a line that a strict reading ends at, or an attack that
leaves the names. -/
theorem exists_of_report_eq_error {e : Refusal} (h : r.report = .error e) :
    (∃ line, e = .apx (.line line)) ∨ ∃ n a, e = .build (.outsideRange n a) := by
  unfold FrameworkRequest.report at h
  split at h
  · obtain ⟨e', hread, rfl⟩ := mapError_eq_error_iff.1 h
    obtain ⟨line, -, rfl⟩ := Apx.exists_of_read_eq_error hread
    exact .inl ⟨line, rfl⟩
  · split at h
    · obtain ⟨e', hmap, rfl⟩ := mapError_eq_error_iff.1 h
      obtain ⟨a, -, rfl⟩ := Framework.exists_of_ofNamed_numbered_eq_error (map_eq_error_iff.1 hmap)
      exact .inr ⟨_, a, rfl⟩
    · cases h

/-! ## The limit -/

/-- Where the limit is an integer, only a framework with more arguments is refused for its size. -/
theorem build_eq (r : FrameworkRequest) (limit : Int) :
    r.build (.int limit) = r.report >>= fun report =>
      if limit < report.framework.size then .error (.tooLarge report.framework.size (.int limit))
      else .ok report := by
  have hless : ∀ m n : Int, (Json.int m).isLess (.int n) = decide (m < n) := by
    intro m n
    simp [Json.isLess, Json.point?, Json.integer?]
  unfold build
  refine bind_congr fun report => ?_
  rw [hless]
  by_cases hlt : limit < report.framework.size
  · rw [if_pos hlt]
    simp [Json.checkNumbers, Json.isNumber, hlt, bind, Except.bind, throw, throwThe,
      MonadExceptOf.throw]
  · rw [if_neg hlt]
    simp [Json.checkNumbers, Json.isNumber, hlt, bind, Except.bind, pure, Except.pure]

/-- A framework with more arguments than the limit is refused. -/
theorem build_eq_of_lt {v : Json} {limit : Int} (hv : v = .int limit) (hr : r.report = .ok report)
    (hlt : limit < report.framework.size) :
    r.build v = .error (.tooLarge report.framework.size (.int limit)) := by
  rw [hv, build_eq, hr]
  exact if_pos hlt

/-- Any other framework is built. -/
theorem build_eq_of_le {v : Json} {limit : Int} (hv : v = .int limit) (hr : r.report = .ok report)
    (hle : report.framework.size ≤ limit) : r.build v = .ok report := by
  rw [hv, build_eq, hr]
  exact if_neg (by omega)

/-- That a framework is too large can be said if its size can be written. -/
theorem message_tooLarge {size limit : Int} (hw : Integer.isWritable limit) :
    (Refusal.tooLarge size (.int limit)).message =
      if Integer.isWritable size then
        .ok (Text.ofString "Framework has " ++ Text.ofString (toString size) ++
          Text.ofString " arguments; limit is " ++ Text.ofString (toString limit))
      else .error .writing := by
  rw [Refusal.message, Json.plain, Integer.write, Integer.write, if_pos hw]
  by_cases hsize : Integer.isWritable size
  · rw [if_pos hsize, if_pos hsize]
    rfl
  · rw [if_neg hsize, if_neg hsize]
    rfl

end FrameworkRequest

namespace Server

variable {s : Server} {e : Engine σ} {limit : Int} {request : FrameworkRequest}
  {report : Apx.Report}

/-! ## Answers -/

/-- A service that can answer: there are solvers, the limit can be written and arguments up to it
have variables, the clock shows a time, and the log can be read. -/
structure IsReady (s : Server) (e : Engine σ) (limit : Int) : Prop where
  backend : ∃ S, e.backend = .ok S
  maxArguments : s.maxArguments = .int limit
  isWritable : Integer.isWritable limit
  lt_memoryBound : limit < Sat.memoryBound
  clock : ∃ now, Instant.ofJson s.clock = .ok now
  chain : ∃ chain, s.chain.for s.directory s.auditPath = .ok chain

/-- What a correct answer says. -/
structure Answer.IsExact (a : Answer) (limit : Int) : Prop where
  /-- The framework is well-formed. -/
  wellFormed : a.report.framework.WellFormed
  /-- It is not too large. -/
  size_le : a.report.framework.size ≤ limit
  /-- Every argument is called something. -/
  length_displayNames : (a.report.framework.displayNames.length : Int) = a.report.framework.size
  /-- No two arguments are called the same. -/
  nodup_displayNames : a.report.framework.displayNames.Nodup
  /-- The labellings are those that the semantics admits, each once, by name. -/
  labellings : ∃ ls, Enumerates (a.report.framework.Admits a.semantics) ls ∧
    a.labellings = ls.map (.showing a.report.framework.displayNames)
  /-- In every labelling, every argument is listed once. -/
  perm : ∀ v ∈ a.labellings,
    (v.accepted ++ (v.rejected ++ v.undecided)).Perm a.report.framework.displayNames

/-- An answer is correct if it shows the labellings of a sound framework. -/
theorem isExact_of_enumerates {a : Answer} {ls : List Labelling}
    (hsound : a.report.framework.IsSound) (hle : a.report.framework.size ≤ limit)
    (hls : Enumerates (a.report.framework.Admits a.semantics) ls)
    (hshow : a.labellings = ls.map (.showing a.report.framework.displayNames)) :
    a.IsExact limit := by
  refine ⟨hsound.wellFormed, hle, hsound.length_displayNames, hsound.nodup_displayNames,
    ⟨ls, hls, hshow⟩, ?_⟩
  rw [hshow, List.forall_mem_map]
  intro l hl
  have hlength := ((hls.mem_iff l).1 hl).length_eq hsound.length_displayNames.symm
  exact LabellingView.perm_namesWith hlength.symm

/-- A framework that is not too large is answered exactly. -/
theorem exists_answerWith_eq (h : s.IsReady e limit) (hv : request.IsValid)
    (hr : request.report = .ok report) (hle : report.framework.size ≤ limit)
    (semantics : Semantics) :
    ∃ a, s.answerWith e semantics request = .ok a ∧ a.semantics = semantics ∧ a.report = report ∧
      a.IsExact limit := by
  have hsound := FrameworkRequest.isSound_of_report hv hr
  obtain ⟨S, hS⟩ := h.backend
  obtain ⟨ls, hls, henum⟩ := Engine.labellings_spec hsound.wellFormed S semantics
  have hwritable : Integer.isWritable report.framework.size :=
    Integer.isWritable_of_natAbs_le (by have := hsound.wellFormed.1; omega) h.isWritable
  obtain ⟨summary, hsummary⟩ := Engine.exists_summary_eq hsound.wellFormed
  rw [if_pos hwritable] at hsummary
  obtain ⟨fingerprint, hfingerprint, -⟩ := map_eq_ok_iff.1 hsummary
  have hbuild : request.build s.maxArguments = .ok report :=
    FrameworkRequest.build_eq_of_le h.maxArguments hr hle
  have hcount : Sat.checkCount report.framework.size = .ok () :=
    Sat.checkCount_of_lt (Int.lt_of_le_of_lt hle h.lt_memoryBound)
  have hviews :
      ls.mapM (fun l =>
        LabellingView.ofLabelling l (.arr (report.framework.displayNames.map .str))) =
      .ok (ls.map (.showing report.framework.displayNames)) := by
    refine mapM_eq_ok fun l hl => LabellingView.ofLabelling_eq ?_
    have hlength := ((henum.mem_iff l).1 hl).length_eq hsound.length_displayNames.symm
    exact hlength.symm
  refine ⟨⟨requestId (s.requests + 1), semantics, report,
    ls.map (.showing report.framework.displayNames), fingerprint, s.elapsed.roundTo 3⟩,
    ?_, rfl, rfl, isExact_of_enumerates hsound hle henum rfl⟩
  -- Every step of the answer succeeds by one of the facts above.
  rw [answerWith, hbuild]
  simp only [AnyFramework.settleWithin, AnyFramework.size, AnyFramework.settle, Json.integer?,
    Option.getD_some, hcount, Engine.resolve, Engine.labellings_eq hS, hls, hsummary, hfingerprint,
    mapError_ok, bind, Except.bind, pure, Except.pure]
  rw [hviews, mapError_ok]

/-- A query is logged. -/
theorem exists_log_eq (h : s.IsReady e limit) (n : Nat) (q : Audit.Query) :
    ∃ s' entry, Server.log { s with requests := n } q = .ok (s', entry) := by
  obtain ⟨now, hnow⟩ := h.clock
  obtain ⟨chain, hchain⟩ := h.chain
  simp [Server.log, Audit.log, hnow, hchain, bind, Except.bind, pure, Except.pure]

/-! ## Replies -/

/-- A request that is refused leaves the service as it is. -/
theorem respondWith_eq_of_refused {r : FrameworkRequest.Refusal}
    (h : request.build s.maxArguments = .error r) (semantics : Semantics) :
    s.respondWith e semantics request = (s, (Failure.refused r).reply s.frontend) := by
  rw [respondWith, answerWith, h]
  rfl

/-- That there is no framework is explained. -/
theorem exists_reply_eq {r : FrameworkRequest.Refusal} (h : request.report = .error r)
    (fe : Frontend) :
    ∃ text, r.message = .ok text ∧ (Failure.refused r).reply fe = fe.detail 422 text := by
  obtain ⟨line, rfl⟩ | ⟨n, a, rfl⟩ := FrameworkRequest.exists_of_report_eq_error h
  · exact ⟨_, rfl, rfl⟩
  · exact ⟨_, rfl, rfl⟩

/-- If the size of a framework that is too large cannot be written, the refusal fails. -/
theorem respondWith_eq_of_not_isWritable (hlimit : s.maxArguments = .int limit)
    (hw : Integer.isWritable limit) (hr : request.report = .ok report)
    (hlt : limit < report.framework.size) (hsize : ¬ Integer.isWritable report.framework.size)
    (semantics : Semantics) : s.respondWith e semantics request = (s, .internalError) := by
  rw [respondWith_eq_of_refused (FrameworkRequest.build_eq_of_lt hlimit hr hlt)]
  simp only [Failure.reply, FrameworkRequest.message_tooLarge hw, if_neg hsize]

/-! ## Requests -/

/-- A body that is read as a request is read as a valid one. -/
theorem isValid_of_requestOfBody {v : Json} (h : s.requestOfBody (some v) = .ok request) :
    request.IsValid := by
  cases v with
  | obj fields => exact FrameworkRequest.isValid_of_ofObject (mapError_eq_ok_iff.1 h)
  | _ => cases h

/-- What comes of a request that breaks no rule. -/
inductive Response (s : Server) (limit : Int) (semantics : Semantics) (request : FrameworkRequest) :
    Server × Reply → Prop
  | refused {r : FrameworkRequest.Refusal} {text : Text} (hr : request.report = .error r)
    (htext : r.message = .ok text) :
    Response s limit semantics request (s, s.frontend.detail 422 text)
  | tooLarge {report : Apx.Report} {text : Text} (hr : request.report = .ok report)
      (hlt : limit < report.framework.size)
      (htext : (FrameworkRequest.Refusal.tooLarge report.framework.size (.int limit)).message =
        .ok text) :
    Response s limit semantics request (s, s.frontend.detail 413 text)
  | unwritable {report : Apx.Report} (hr : request.report = .ok report)
      (hlt : limit < report.framework.size) (hsize : ¬ Integer.isWritable report.framework.size) :
      Response s limit semantics request (s, .internalError)
  | answered {a : Answer} {s' : Server} (hr : request.report = .ok a.report)
      (hsemantics : a.semantics = semantics) (hexact : a.IsExact limit) :
    Response s limit semantics request (s', s.frontend.ok a.toJson)

/-- What comes of a path and a body. -/
inductive Outcome (s : Server) (limit : Int) (name : String) (v : Json) : Server × Reply → Prop
  | invalid {issues : List Issue}
    (h : Validated.both (semanticsOfPath name) (s.requestOfBody (some v)) = .error issues) :
    Outcome s limit name v (s, s.frontend.invalid issues)
  | valid {semantics : Semantics} {request : FrameworkRequest} {r : Server × Reply}
    (h : Validated.both (semanticsOfPath name) (s.requestOfBody (some v)) =
      .ok (semantics, request))
    (hr : Response s limit semantics request r) : Outcome s limit name v r

/-- A request that breaks no rule comes to nothing else. -/
theorem response_respondWith (h : s.IsReady e limit) (hv : request.IsValid)
    (semantics : Semantics) :
    Response s limit semantics request (s.respondWith e semantics request) := by
  cases hr : request.report with
  | error r =>
    have hbuild : request.build s.maxArguments = .error r := by
      rw [FrameworkRequest.build, hr]
      rfl
    obtain ⟨text, htext, hreply⟩ := exists_reply_eq hr s.frontend
    rw [respondWith_eq_of_refused hbuild, hreply]
    exact .refused hr htext
  | ok report =>
    by_cases hlt : limit < report.framework.size
    · by_cases hsize : Integer.isWritable report.framework.size
      · have htext := (FrameworkRequest.message_tooLarge h.isWritable).trans (if_pos hsize)
        rw [respondWith_eq_of_refused (FrameworkRequest.build_eq_of_lt h.maxArguments hr hlt)]
        simp only [Failure.reply, htext]
        exact .tooLarge hr hlt htext
      · rw [respondWith_eq_of_not_isWritable h.maxArguments h.isWritable hr hlt hsize]
        exact .unwritable hr hlt hsize
    · have hle := Int.not_lt.1 hlt
      obtain ⟨a, ha, hsemantics, rfl, hexact⟩ := exists_answerWith_eq h hv hr hle semantics
      obtain ⟨s', entry, hlog⟩ := exists_log_eq h (s.requests + 1) (a.query s.solver)
      rw [respondWith, ha]
      simp only [hlog]
      exact .answered hr hsemantics hexact

/-- **Requests for labellings.** However the fields of a body are read and values are sent, the
faults of a body are listed, or it is explained why it gives no framework or one that is too large,
or it is answered exactly. Nothing else comes of it, except where the size has too many digits to be
written, so that it cannot be said. -/
theorem requestWith_outcome (h : s.IsReady e limit) (name : String) (v : Json) :
    Outcome s limit name v (s.requestWith e name (some v)) := by
  unfold requestWith
  cases hboth : Validated.both (semanticsOfPath name) (s.requestOfBody (some v)) with
  | error issues => exact .invalid hboth
  | ok p =>
    have hv := isValid_of_requestOfBody (Validated.both_eq_ok_iff.1 hboth).2
    exact .valid hboth (response_respondWith h hv p.1)

/-- The service as it starts answers a request with one attack. -/
theorem requestWith_outcome_one_attack :
    Outcome initial 64 "preferred" (.obj [("attacks", .arr [.arr [.int 0, .int 1]])])
      (initial.requestWith (.ofSolvers fun _ => .learning) "preferred"
        (some (.obj [("attacks", .arr [.arr [.int 0, .int 1]])]))) :=
  requestWith_outcome ⟨⟨_, rfl⟩, rfl, by decide, by decide, ⟨_, rfl⟩, ⟨_, rfl⟩⟩ _ _

/-- The service as it starts reads a body with one attack. -/
theorem requestOfBody_attack (n : Nat) :
    initial.requestOfBody (some (.obj [("attacks", .arr [.arr [.int 0, .int n]])])) =
      .ok ⟨none, some [(0, (n : Int))], none, false⟩ := by
  have hfields : initial.frontend.request [("attacks", .arr [.arr [.int 0, .int n]])] =
      .ok ⟨none, some [(0, (n : Int))], none, false⟩ := rfl
  have hbroken : FrameworkRequest.broken? ⟨none, some [(0, (n : Int))], none, false⟩ = none := by
    simp [FrameworkRequest.broken?]
  rw [requestOfBody, FrameworkRequest.ofObject, hfields]
  simp only [bind, Except.bind, hbroken]
  rfl

/-- An attack on the argument whose number is written with four thousand and three hundred nines. -/
theorem requestWith_nines :
    initial.requestWith (.named initial.solver) "complete" (some (.obj
        [("attacks", .arr [.arr [.int 0, .int ((10 ^ Integer.digitLimit - 1 : Nat) : Int)]])])) =
      (initial, .internalError) := by
  -- The number itself is never computed: all that counts is that the next one is the power.
  generalize hn : 10 ^ Integer.digitLimit - 1 = n
  have hsucc : n + 1 = 10 ^ Integer.digitLimit := by
    rw [← hn, Nat.sub_add_cancel (Nat.one_le_pow _ _ (by decide))]
  have hboth : Validated.both (semanticsOfPath "complete")
      (initial.requestOfBody (some (.obj [("attacks", .arr [.arr [.int 0, .int n]])]))) =
      .ok (.complete, ⟨none, some [(0, (n : Int))], none, false⟩) :=
    Validated.both_eq_ok_iff.2 ⟨rfl, requestOfBody_attack n⟩
  have hreport : FrameworkRequest.report ⟨none, some [(0, (n : Int))], none, false⟩ =
      .ok ⟨Framework.ofAttacks [⟨0, n⟩], []⟩ := rfl
  have hsize : (Framework.ofAttacks [⟨0, n⟩]).size = (n + 1 : Nat) := by
    simp only [Framework.ofAttacks, Framework.highest]
    omega
  have hlt : (64 : Int) < (n + 1 : Nat) := by
    have hpow : 10 ^ 2 ≤ 10 ^ Integer.digitLimit := Nat.pow_le_pow_right (by decide) (by decide)
    omega
  have hunwritable : ¬ Integer.isWritable (n + 1 : Nat) := by
    rw [Integer.isWritable_iff, Int.natAbs_natCast, hsucc]
    exact Nat.lt_irrefl _
  rw [requestWith, hboth]
  exact respondWith_eq_of_not_isWritable rfl (by decide) hreport (hsize ▸ hlt)
    (hsize ▸ hunwritable) .complete

end Server

end Dialectic
