import Dialectic.Preferred
import Dialectic.Proofs.Candidates
import Dialectic.Proofs.Encoding

/-!
# The search reaches its end

What holds in every state of the search is an invariant (`Preferred.Invariant`): what is recorded is
preferred, the base formula encodes that a labelling is a candidate, and the session of a climb
encodes that a candidate accepts more than what is fixed. Every step keeps it and makes a number
smaller (`Preferred.step_spec`), whatever the solvers answer, so the search ends, and within the
steps it is given (`Preferred.run_spec`). Main statement: a finished search has recorded preferred
labellings and leaves no other candidate (`Preferred.search_spec`).
-/

namespace Dialectic

open Dialectic.Sat (Formula Model Session Solver)

variable {σ : Type} {f : Framework} {n : Nat} {m m' : Model} {l l' : Labelling}

/-! ## Asking a solver -/

/-- **Asking a solver.** An open session whose clauses encode a property answers with a model that
describes a labelling with the property, or there is no such labelling. -/
theorem Encodes.solve {P : Labelling → Prop} {s : Session σ} (h : Encodes s.given n P)
    (ho : s.isOpen) :
    ∃ t answer, s.solve = (t, .ok answer) ∧ t.given = s.given ∧ t.isOpen ∧ t.calls = s.calls + 1 ∧
      ((answer = none ∧ ∀ l, ¬ P l) ∨ ∃ m l, answer = some m ∧ Describes n m l ∧ P l) := by
  obtain ⟨t, answer, hs, hg, hto, hc, hsome, hnone⟩ := Session.solve_of_isOpen ho
  refine ⟨t, answer, hs, hg, hto, hc, ?_⟩
  cases answer with
  | none => exact Or.inl ⟨rfl, h.not_of_models_eq_nil (hnone rfl)⟩
  | some m =>
    obtain ⟨l, hP, hl⟩ := h.mem_models_iff.1 (hsome m rfl)
    exact Or.inr ⟨m, l, rfl, hl, hP⟩

namespace Preferred

/-! ## What the clauses of a climb say -/

/-- What is fixed are the arguments that a described labelling accepts and that are not fixed
yet. -/
theorem units_eq (h : Describes n m l) (frozen : List Nat) :
    units (.first n) m frozen =
      ((List.range n).filter fun i => decide (i ∈ l.accepted ∧ i ∉ frozen)).map fun i =>
        [(Status.accepted.var n i : Int)] := by
  simp only [units, LabelVariables.first, Status.zipIdx_vars, List.filter_map, List.map_map]
  congr 1
  apply List.filter_congr
  intro i hi
  simp [h.mem_trueVariables (List.mem_range.1 hi), Labelling.mem_accepted]

/-- The clauses that fix arguments have literals, which are variables of the arguments. -/
theorem natAbs_of_mem_units (h : Describes n m l) {frozen : List Nat} {c : Sat.Clause}
    (hc : c ∈ units (.first n) m frozen) :
    c ≠ [] ∧ ∀ x ∈ c, 1 ≤ x.natAbs ∧ x.natAbs ≤ 3 * n := by
  rw [units_eq h] at hc
  obtain ⟨i, hi, rfl⟩ := List.mem_map.1 hc
  refine ⟨by simp, fun x hx => ?_⟩
  rw [List.mem_singleton.1 hx, Int.natAbs_natCast]
  exact ⟨Status.one_le_var, Status.var_le (List.mem_range.1 (List.mem_filter.1 hi).1)⟩

/-- The clauses that fix arguments are never refused. -/
theorem ne_nil_and_zero_not_mem_of_mem_units (h : Describes n m l) (frozen : List Nat) :
    ∀ c ∈ units (.first n) m frozen, c ≠ [] ∧ 0 ∉ c := by
  intro c hc
  obtain ⟨hne, hx⟩ := natAbs_of_mem_units h hc
  refine ⟨hne, fun hz => ?_⟩
  have := hx 0 hz
  omega

/-- In a description the clauses hold exactly if the arguments are accepted there too. -/
theorem satisfies_units (h : Describes n m l) (h' : Describes n m' l') (frozen : List Nat) :
    Sat.satisfies m' (units (.first n) m frozen) ↔
      ∀ i ∈ l.accepted, i ∉ frozen → i ∈ l'.accepted := by
  rw [units_eq h, Sat.satisfies_map]
  constructor
  · intro hs i hi hf
    have hin : i < n := h.length_eq ▸ Labelling.lt_length_of_mem_indices hi
    have := hs i (List.mem_filter.2 ⟨List.mem_range.2 hin, by simp [hi, hf]⟩)
    simpa [h'.mem_iff i hin, Labelling.mem_accepted] using this
  · intro hs i hi
    rw [List.mem_filter, List.mem_range, decide_eq_true_iff] at hi
    have := hs i hi.2.1 hi.2.2
    simpa [h'.mem_iff i hi.1, Labelling.mem_accepted] using this

/-- **Fixing what is accepted.** With what a labelling accepts fixed, and something else asked for,
clauses that encode that a candidate accepts more than what was fixed before encode that it accepts
more than the labelling. -/
theorem encodes_units {cs : List Sat.Clause} {found : List Labelling} {frozen : List Nat}
    (h : Encodes cs n (f.Outgrows found frozen)) (hl : Describes n m l) (hs : frozen ⊆ l.accepted) :
    Encodes (cs ++ units (.first n) m frozen ++ [acceptsOutside n l.accepted]) n
      (f.Outgrows found l.accepted) := by
  have hv : Sat.maxVar (units (.first n) m frozen) ≤ 3 * n :=
    Sat.maxVar_le fun c hc x hx => ((natAbs_of_mem_units hl hc).2 x hx).2
  refine ((h.append hv fun hl' => satisfies_units hl hl' frozen).append_acceptsOutside
    l.accepted).congr ?_
  intro l'
  rw [Framework.outgrows_iff_of_subset hs, and_assoc]

/-- What is fixed after a labelling was found that accepts all that was fixed before is what it
accepts. -/
theorem freeze_perm {frozen : List Nat} (hnodup : frozen.Nodup) (hs : frozen ⊆ l.accepted) :
    (freeze frozen l.accepted).Perm l.accepted := by
  have hdisjoint : (freeze frozen l.accepted).Nodup := by
    refine hnodup.append (l.nodup_accepted.filter _) fun i hi hi' => ?_
    exact of_decide_eq_true (List.mem_filter.1 hi').2 hi
  refine (List.perm_ext_iff_of_nodup hdisjoint l.nodup_accepted).2 fun i => ?_
  rw [freeze, List.mem_append, List.mem_filter, decide_eq_true_iff]
  constructor
  · exact fun h => h.elim (fun hi => hs hi) And.left
  · exact fun hi => (em (i ∈ frozen)).imp_right fun hfresh => ⟨hi, hfresh⟩

/-- The clause that some argument is accepted is added to the clauses of a framework, if it has
arguments. -/
theorem addClause_nonEmptyClause (h₀ : 0 < n) (f : Framework) :
    (completeFormula n f).addClause (LabelVariables.first n).nonEmptyClause =
      .ok ((completeFormula n f).pushAll [acceptsOutside n []]) := by
  rw [nonEmptyClause_first]
  refine Formula.addClause_eq_ok_iff.2 ⟨fun hnil => ?_, zero_not_mem_acceptsOutside, rfl⟩
  have := acceptsOutside_eq_nil_iff.1 hnil 0 h₀
  simp at this

/-- With that clause they encode that a labelling is a candidate. -/
theorem encodes_isCandidate (hf : f.WellFormed) (hn : f.size = n) :
    Encodes ((completeFormula n f).pushAll [acceptsOutside n []]).clauses n (f.IsCandidate []) :=
  ((encodes_complete hf hn).append_acceptsOutside []).congr fun _ =>
    Framework.isCandidate_nil_iff.symm

/-- Once a labelling is recorded and something else asked for, the base formula encodes what is
still of interest. -/
theorem encodes_exclude {cs : List Sat.Clause} {found : List Labelling}
    (h : Encodes cs n (f.IsCandidate found)) (l : Labelling) :
    Encodes (cs ++ [acceptsOutside n l.accepted]) n (f.IsCandidate (found ++ [l])) :=
  (h.append_acceptsOutside l.accepted).congr fun _ => Framework.isCandidate_concat_iff.symm

/-- Where the clause that something else is accepted has no literals, nothing else is. -/
theorem accepted_subset_of_acceptsOutside_eq_nil (hn : f.size = n) {e : List Nat}
    (he : acceptsOutside n e = []) (h : f.IsComplete l) : l.accepted ⊆ e := fun i hi =>
  acceptsOutside_eq_nil_iff.1 he i (List.mem_range.1 (h.accepted_subset_range hn hi))

/-! ## Fixing and recording -/

variable {s : State σ} {session : Session σ}

/-- If the model accepts everything, fixing that leads to the end of the climb. -/
theorem freezeAndExtend_of_eq_nil (session : Session σ) (hl : Describes n s.model l)
    (hall : acceptsOutside n l.accepted = []) :
    ∃ t, freezeAndExtend (.first n) session s =
        .ok { s with session := some t, frozen := freeze s.frozen l.accepted,
                     phase := .recordAndExclude } ∧
      t.isOpen = session.isOpen ∧ t.calls = session.calls := by
  obtain ⟨t, hfold, -, ho, hc⟩ :=
    session.foldlM_addClause (ne_nil_and_zero_not_mem_of_mem_units hl s.frozen)
  refine ⟨t, ?_, ho, hc⟩
  simp [freezeAndExtend, hfold, hl.accepted_eq, hl.notAccepted_eq, hall, bind, Except.bind,
    pure, Except.pure]

/-- Otherwise what the model accepts is fixed, and the session asked for something else. -/
theorem freezeAndExtend_of_ne_nil (session : Session σ) (hl : Describes n s.model l)
    (hall : acceptsOutside n l.accepted ≠ []) :
    ∃ t, freezeAndExtend (.first n) session s =
        .ok { s with session := some t, frozen := freeze s.frozen l.accepted,
                     phase := .fixpointCheck } ∧
      t.given = session.given ++ units (.first n) s.model s.frozen ++
        [acceptsOutside n l.accepted] ∧
      t.isOpen = session.isOpen ∧ t.calls = session.calls := by
  obtain ⟨t, hfold, hg, ho, hc⟩ :=
    session.foldlM_addClause (ne_nil_and_zero_not_mem_of_mem_units hl s.frozen)
  obtain ⟨u, hadd, hug, huo, huc⟩ := t.exists_addClause_eq hall zero_not_mem_acceptsOutside
  refine ⟨u, ?_, by rw [hug, hg], huo.trans ho, huc.trans hc⟩
  -- The phase looks at whether the clause has a first literal.
  obtain ⟨x, xs, hx⟩ := List.exists_cons_of_ne_nil hall
  rw [hx] at hadd
  simp [freezeAndExtend, hfold, hl.accepted_eq, hl.notAccepted_eq, hx, hadd, bind,
    Except.bind, pure, Except.pure]

/-- If the recorded labelling accepts everything, the search is over. -/
theorem recordAndExclude_of_eq_nil (hs : s.session = some session) (ho : session.isOpen)
    (hl : Describes n s.model l) (hall : acceptsOutside n l.accepted = []) :
    recordAndExclude (.first n) s =
      .ok { s with session := none, closed := s.closed + 1, found := s.found ++ [l],
                   phase := .done } := by
  simp [recordAndExclude, State.closeSession, hs, ho, hl.decode_eq, hl.notAccepted_eq, hall,
    bind, Except.bind, pure, Except.pure]

/-- Otherwise the base formula is told to accept something else. -/
theorem recordAndExclude_of_ne_nil (hs : s.session = some session) (ho : session.isOpen)
    (hl : Describes n s.model l) (hall : acceptsOutside n l.accepted ≠ []) :
    recordAndExclude (.first n) s =
      .ok { s with session := none, closed := s.closed + 1, found := s.found ++ [l],
                   base := s.base.pushAll [acceptsOutside n l.accepted],
                   phase := .startClimb } := by
  have hadd := (Formula.addClause_eq_ok_iff (f := s.base)).2
    ⟨hall, zero_not_mem_acceptsOutside, rfl⟩
  obtain ⟨x, xs, hx⟩ := List.exists_cons_of_ne_nil hall
  rw [hx] at hadd ⊢
  simp [recordAndExclude, State.closeSession, hs, ho, hl.decode_eq, hl.notAccepted_eq, hx, hadd,
    bind, Except.bind, pure, Except.pure]

/-! ## The invariant -/

/-- A climb on its way: a session, and the candidate that the model found last describes. -/
structure Climb (f : Framework) (n : Nat) (s : State σ) (session : Session σ) (l : Labelling) :
    Prop where
  /-- The session is that of the state. -/
  session_eq : s.session = some session
  /-- The model describes the labelling. -/
  describes : Describes n s.model l
  /-- The labelling is not covered by what is recorded. -/
  isCandidate : f.IsCandidate s.found l

/-- What holds in a phase besides what always holds. -/
def PhaseInvariant (f : Framework) (n : Nat) (s : State σ) : Prop :=
  match s.phase with
  | .startClimb => s.session = none
  | .freezeAndExtend =>
    ∃ session l, Climb f n s session l ∧ Encodes session.given n (f.Outgrows s.found s.frozen) ∧
      f.Outgrows s.found s.frozen l ∧ session.calls ≤ l.accepted.length
  | .fixpointCheck =>
    ∃ session l, Climb f n s session l ∧ Encodes session.given n (f.Outgrows s.found s.frozen) ∧
      s.frozen.Perm l.accepted ∧ session.calls ≤ l.accepted.length ∧ l.accepted.length < n
  | .recordAndExclude =>
    ∃ session l, Climb f n s session l ∧
      ∀ l', f.IsCandidate s.found l' → l.accepted ⊆ l'.accepted → l'.accepted ⊆ l.accepted
  | .done => ∀ l, ¬ f.IsCandidate s.found l

/-- What holds in every state of the search over a framework with `n` arguments. -/
structure Invariant (f : Framework) (n : Nat) (s : State σ) : Prop where
  /-- The base formula encodes that a labelling is a candidate. -/
  base_encodes : s.phase ≠ .done → Encodes s.base.clauses n (f.IsCandidate s.found)
  /-- What is recorded is preferred and accepts something. -/
  isPreferred : ∀ l ∈ s.found, f.IsPreferred l ∧ l.accepted ≠ []
  /-- Nothing is recorded twice. -/
  nodup : s.found.Nodup
  /-- Nothing is fixed twice. -/
  nodup_frozen : s.frozen.Nodup
  /-- The session is open and was not asked more often than there are arguments. -/
  session_open : ∀ session, s.session = some session → session.isOpen ∧ session.calls ≤ n
  /-- Besides the session that is open there was one for every labelling recorded. -/
  opened_eq : s.opened = s.found.length + s.session.toList.length
  /-- The session of every labelling recorded was closed. -/
  closed_eq : s.closed = s.found.length
  /-- What holds in the phase that the search is in. -/
  phase_holds : PhaseInvariant f n s

/-- A number that every step makes smaller. Each set that is left is worth the `2 * n + 4` steps of
a climb; during a climb two steps are taken off for every argument fixed, and at its end nearly all
that the climb is worth. -/
def potential (n : Nat) (s : State σ) : Nat :=
  let credit := (Framework.uncovered n s.found).card * (2 * n + 4)
  match s.phase with
  | .startClimb => credit + 1
  | .freezeAndExtend => credit - 2 * s.frozen.length
  | .fixpointCheck => credit - 2 * s.frozen.length + 1
  | .recordAndExclude => credit - (2 * n + 2)
  | .done => 0

/-- As long as there is a candidate, what is left is worth a climb. -/
theorem le_credit (hn : f.size = n) {found : List Labelling} (h : f.IsCandidate found l) :
    2 * n + 4 ≤ (Framework.uncovered n found).card * (2 * n + 4) :=
  Nat.le_mul_of_pos_left _ (Finset.card_pos.2 ⟨_, h.mem_uncovered hn⟩)

/-- Recording a candidate takes at least what a climb is worth off what is left. -/
theorem credit_concat_le (hn : f.size = n) {found : List Labelling} (h : f.IsCandidate found l) :
    (Framework.uncovered n (found ++ [l])).card * (2 * n + 4) + (2 * n + 4) ≤
      (Framework.uncovered n found).card * (2 * n + 4) := by
  rw [← Nat.succ_mul]
  exact Nat.mul_le_mul_right _ (Framework.card_uncovered_concat_lt h hn)

/-! ## One step -/

/-- Starting a climb finds a candidate, or there is none. -/
theorem step_startClimb (h₀ : 0 < n) (S : Nat → Solver σ) (h : Invariant f n s)
    (hp : s.phase = .startClimb) :
    ∃ t, step S (.first n) s = .ok t ∧ Invariant f n t ∧ potential n t < potential n s := by
  have hnone : s.session = none := by simpa [PhaseInvariant, hp] using h.phase_holds
  have hopened : s.opened = s.found.length := by simpa [hnone] using h.opened_eq
  have hb := h.base_encodes (by simp [hp])
  obtain ⟨session, answer, hs, hg, ho, hc, hanswer⟩ :=
    Encodes.solve (s := .start (S s.opened) s.base.copy) (by simpa using hb) rfl
  replace hc : session.calls = 1 := hc
  rcases hanswer with ⟨rfl, hno⟩ | ⟨m, l, rfl, hl, hcand⟩
  · refine ⟨{ s with session := some session, frozen := [], opened := s.opened + 1,
                     phase := .done },
      by simp [step, hp, startClimb, hs],
      ⟨by simp, h.isPreferred, h.nodup, List.nodup_nil, ?_, by simp [hopened], h.closed_eq,
        hno⟩, ?_⟩
    · rintro _ ⟨⟩
      exact ⟨ho, by omega⟩
    · simp [potential, hp]
  · -- Nothing is fixed yet, so the session encodes what the base formula does.
    have hpos : 0 < l.accepted.length := List.length_pos_iff.2 hcand.accepted_ne_nil
    refine ⟨{ s with session := some session, frozen := [], opened := s.opened + 1,
                     phase := .freezeAndExtend, model := m },
      by simp [step, hp, startClimb, hs],
      ⟨fun _ => hb, h.isPreferred, h.nodup, List.nodup_nil, ?_, by simp [hopened], h.closed_eq,
        ?_⟩, ?_⟩
    · rintro _ ⟨⟩
      exact ⟨ho, by omega⟩
    · refine ⟨session, l, ⟨rfl, hl, hcand⟩, ?_, Framework.outgrows_nil_iff.2 hcand, by omega⟩
      rw [hg, Session.given_start]
      exact hb.congr fun l => Framework.outgrows_nil_iff.symm
    · simp [potential, hp]

/-- Fixing what the model accepts leaves the candidates that accept more; if nothing else can be
accepted, the candidate is maximal. -/
theorem step_freezeAndExtend (hn : f.size = n) (S : Nat → Solver σ) (h : Invariant f n s)
    (hp : s.phase = .freezeAndExtend) :
    ∃ t, step S (.first n) s = .ok t ∧ Invariant f n t ∧ potential n t < potential n s := by
  have hph := h.phase_holds
  simp only [PhaseInvariant, hp] at hph
  obtain ⟨session, l, hc, hg, hout, hcalls⟩ := hph
  have hsession := h.session_open session hc.session_eq
  have hopened : s.opened = s.found.length + 1 := by simpa [hc.session_eq] using h.opened_eq
  have hcomplete := hc.isCandidate.isComplete
  -- More is fixed than before, which makes up for the step to the next phase.
  have hmore : s.frozen.length < l.accepted.length :=
    Framework.length_lt_of_subset h.nodup_frozen hout.2.1 hout.2.2
  have hfrozen := freeze_perm h.nodup_frozen hout.2.1
  have hlen := hfrozen.length_eq
  have hnodup := hfrozen.nodup_iff.2 l.nodup_accepted
  have hcredit := le_credit hn hc.isCandidate
  have hstep : step S (.first n) s = freezeAndExtend (.first n) session s := by
    simp [step, hp, hc.session_eq]
  rw [hstep]
  by_cases hall : acceptsOutside n l.accepted = []
  · have hle := hcomplete.length_accepted_le hn
    obtain ⟨t, ht, hto, htc⟩ := freezeAndExtend_of_eq_nil session hc.describes hall
    refine ⟨_, ht, ⟨fun _ => h.base_encodes (by simp [hp]), h.isPreferred, h.nodup, hnodup, ?_,
      by simpa using hopened, h.closed_eq, ?_⟩, ?_⟩
    · rintro _ ⟨⟩
      exact ⟨hto ▸ hsession.1, htc ▸ hsession.2⟩
    · refine ⟨t, l, ⟨rfl, hc.describes, hc.isCandidate⟩, fun l' hl' _ => ?_⟩
      exact accepted_subset_of_acceptsOutside_eq_nil hn hall hl'.isComplete
    · simp only [potential, hp]
      omega
  · have hlt := hcomplete.length_accepted_lt hn fun hmem => hall (acceptsOutside_eq_nil_iff.2 hmem)
    obtain ⟨t, ht, htg, hto, htc⟩ := freezeAndExtend_of_ne_nil session hc.describes hall
    refine ⟨_, ht, ⟨fun _ => h.base_encodes (by simp [hp]), h.isPreferred, h.nodup, hnodup, ?_,
      by simpa using hopened, h.closed_eq, ?_⟩, ?_⟩
    · rintro _ ⟨⟩
      exact ⟨hto ▸ hsession.1, htc ▸ hsession.2⟩
    · refine ⟨t, l, ⟨rfl, hc.describes, hc.isCandidate⟩, ?_, hfrozen, htc ▸ hcalls, hlt⟩
      rw [htg]
      exact (encodes_units hg hc.describes hout.2.1).congr fun l' =>
        (Framework.outgrows_congr hfrozen).symm
    · simp only [potential, hp]
      omega

/-- Looking for a model that accepts more finds a larger candidate, or the candidate is maximal. -/
theorem step_fixpointCheck (hn : f.size = n) (S : Nat → Solver σ) (h : Invariant f n s)
    (hp : s.phase = .fixpointCheck) :
    ∃ t, step S (.first n) s = .ok t ∧ Invariant f n t ∧ potential n t < potential n s := by
  have hph := h.phase_holds
  simp only [PhaseInvariant, hp] at hph
  obtain ⟨session, l, hc, hg, hfrozen, hcalls, hlt⟩ := hph
  have hopened : s.opened = s.found.length + 1 := by simpa [hc.session_eq] using h.opened_eq
  have hcredit := le_credit hn hc.isCandidate
  have hlen := hfrozen.length_eq
  obtain ⟨session', answer, hs, hg', ho', hcalls', hanswer⟩ :=
    hg.solve (h.session_open _ hc.session_eq).1
  rcases hanswer with ⟨rfl, hno⟩ | ⟨m, l', rfl, hl', hout⟩
  · refine ⟨{ s with session := some session', phase := .recordAndExclude },
      by simp [step, hp, hc.session_eq, fixpointCheck, hs],
      ⟨fun _ => h.base_encodes (by simp [hp]), h.isPreferred, h.nodup, h.nodup_frozen, ?_,
        by simpa using hopened, h.closed_eq, ?_⟩, ?_⟩
    · rintro _ ⟨⟩
      exact ⟨ho', by omega⟩
    · -- A candidate that accepts more would have a model.
      refine ⟨session', l, ⟨rfl, hc.describes, hc.isCandidate⟩, fun l' hl' hsub => ?_⟩
      by_contra hsub'
      exact hno l' ⟨hl', List.Subset.trans hfrozen.subset hsub,
        fun hfixed => hsub' (List.Subset.trans hfixed hfrozen.subset)⟩
    · simp only [potential, hp]
      omega
  · have hmore : s.frozen.length < l'.accepted.length :=
      Framework.length_lt_of_subset h.nodup_frozen hout.2.1 hout.2.2
    refine ⟨{ s with session := some session', phase := .freezeAndExtend, model := m },
      by simp [step, hp, hc.session_eq, fixpointCheck, hs],
      ⟨fun _ => h.base_encodes (by simp [hp]), h.isPreferred, h.nodup, h.nodup_frozen, ?_,
        by simpa using hopened, h.closed_eq, ?_⟩, ?_⟩
    · rintro _ ⟨⟩
      exact ⟨ho', by omega⟩
    · exact ⟨session', l', ⟨rfl, hl', hout.1⟩, hg' ▸ hg, hout, by omega⟩
    · simp only [potential, hp]
      omega

/-- Recording a maximal candidate leaves the candidates that it does not cover; if it accepts
everything, there are none. -/
theorem step_recordAndExclude (hn : f.size = n) (S : Nat → Solver σ) (h : Invariant f n s)
    (hp : s.phase = .recordAndExclude) :
    ∃ t, step S (.first n) s = .ok t ∧ Invariant f n t ∧ potential n t < potential n s := by
  have hph := h.phase_holds
  simp only [PhaseInvariant, hp] at hph
  obtain ⟨session, l, hc, hmax⟩ := hph
  have hopened : s.opened = s.found.length + 1 := by simpa [hc.session_eq] using h.opened_eq
  have hopen := (h.session_open _ hc.session_eq).1
  have hcredit := le_credit hn hc.isCandidate
  have hconcat := credit_concat_le hn hc.isCandidate
  have hpref : ∀ r ∈ s.found ++ [l], f.IsPreferred r ∧ r.accepted ≠ [] := by
    intro r hr
    rcases List.mem_append.1 hr with hr | hr
    · exact h.isPreferred r hr
    · rw [List.mem_singleton.1 hr]
      exact ⟨hc.isCandidate.isPreferred hmax, hc.isCandidate.accepted_ne_nil⟩
  have hnd : (s.found ++ [l]).Nodup := by
    simpa using h.nodup.concat hc.isCandidate.not_mem
  have hstep : step S (.first n) s = recordAndExclude (.first n) s := by
    simp [step, hp, hc.session_eq]
  rw [hstep]
  by_cases hall : acceptsOutside n l.accepted = []
  · refine ⟨_, recordAndExclude_of_eq_nil hc.session_eq hopen hc.describes hall,
      ⟨by simp, hpref, hnd, h.nodup_frozen, by simp, by simp [hopened], by simp [h.closed_eq],
        ?_⟩, ?_⟩
    · intro l' hl'
      have hnot := (Framework.isCandidate_concat_iff.1 hl').2
      exact hnot (accepted_subset_of_acceptsOutside_eq_nil hn hall hl'.isComplete)
    · simp only [potential, hp]
      omega
  · refine ⟨_, recordAndExclude_of_ne_nil hc.session_eq hopen hc.describes hall,
      ⟨fun _ => ?_, hpref, hnd, h.nodup_frozen, by simp, by simp [hopened], by simp [h.closed_eq],
        rfl⟩, ?_⟩
    · exact encodes_exclude (h.base_encodes (by simp [hp])) l
    · simp only [potential, hp]
      omega

/-- **One step.** Until the search is over every step succeeds, keeps the invariant and makes the
potential smaller. -/
theorem step_spec (hn : f.size = n) (h₀ : 0 < n) (S : Nat → Solver σ) (h : Invariant f n s)
    (hp : s.phase ≠ .done) :
    ∃ t, step S (.first n) s = .ok t ∧ Invariant f n t ∧ potential n t < potential n s := by
  cases hph : s.phase with
  | startClimb => exact step_startClimb h₀ S h hph
  | freezeAndExtend => exact step_freezeAndExtend hn S h hph
  | fixpointCheck => exact step_fixpointCheck hn S h hph
  | recordAndExclude => exact step_recordAndExclude hn S h hph
  | done => exact absurd hph hp

/-! ## The whole search -/

/-- **The search ends.** With as many steps as the potential allows for, the search comes to its
end. -/
theorem run_spec (hn : f.size = n) (h₀ : 0 < n) (S : Nat → Solver σ) (fuel : Nat)
    (h : Invariant f n s) (hfuel : potential n s ≤ fuel) :
    ∃ t, run S (.first n) fuel s = .ok t ∧ Invariant f n t ∧ t.phase = .done := by
  induction fuel generalizing s with
  | zero =>
    refine ⟨s, rfl, h, ?_⟩
    by_contra hp
    obtain ⟨t, -, -, hlt⟩ := step_spec hn h₀ S h hp
    omega
  | succ fuel ih =>
    by_cases hp : s.phase = .done
    · exact ⟨s, by rw [run, if_pos hp], h, hp⟩
    · obtain ⟨t, hstep, ht, hlt⟩ := step_spec hn h₀ S h hp
      obtain ⟨u, hrun, hu, hdone⟩ := ih ht (by omega)
      refine ⟨u, ?_, hu, hdone⟩
      rw [run, if_neg hp, hstep]
      exact hrun

/-- The invariant holds before the first step. -/
theorem invariant_initial {base : Formula} (hb : Encodes base.clauses n (f.IsCandidate [])) :
    Invariant f n (State.initial base : State σ) :=
  ⟨fun _ => hb, by simp [State.initial], List.nodup_nil, List.nodup_nil, by simp [State.initial],
    rfl, rfl, rfl⟩

/-- The steps that a search is given are enough. -/
theorem potential_initial_le (n : Nat) (base : Formula) :
    potential n (State.initial base : State σ) ≤ stepBound n := by
  have hcard := Nat.mul_le_mul_right (2 * n + 4) (Framework.card_uncovered_nil_le n)
  have hbound : stepBound n = 2 ^ n * (2 * n + 4) + (2 * n + 4) := Nat.succ_mul _ _
  simp only [potential, State.initial]
  omega

/-- Closing the session leaves what is recorded. -/
@[simp] theorem found_closeSession (s : State σ) : s.closeSession.found = s.found := by
  unfold State.closeSession
  split <;> rfl

/-- The search is a run with as many steps as it is given, after which the session is closed. -/
theorem search_eq_of_run {S : Nat → Solver σ} {base : Formula} {t : State σ}
    (h : run S (.first n) (stepBound n) (State.initial base) = .ok t) :
    search S (.first n) base = .ok t.closeSession := by
  have hlen : (LabelVariables.first n).inn.length = n := by simp [LabelVariables.first, Status.vars]
  rw [search, hlen, h]
  rfl

/-- **The search.** On a base formula that encodes that something is accepted in a complete
labelling, the search ends, and leaves no candidate that it did not record. -/
theorem search_spec (hn : f.size = n) (h₀ : 0 < n) (S : Nat → Solver σ) {base : Formula}
    (hb : Encodes base.clauses n (f.IsCandidate [])) :
    ∃ t, search S (.first n) base = .ok t ∧ f.Exhausted t.found := by
  obtain ⟨t, hrun, ht, hdone⟩ :=
    run_spec hn h₀ S (stepBound n) (invariant_initial hb) (potential_initial_le n base)
  refine ⟨t.closeSession, search_eq_of_run hrun, ?_⟩
  have hnone : ∀ l, ¬ f.IsCandidate t.found l := by
    simpa [PhaseInvariant, hdone] using ht.phase_holds
  rw [found_closeSession]
  exact ⟨ht.isPreferred, ht.nodup, hnone⟩

end Preferred

end Dialectic
