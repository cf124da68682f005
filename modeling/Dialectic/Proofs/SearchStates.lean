import Dialectic.Proofs.Labellings
import Mathlib.Logic.Relation

/-!
# The states of the search

Which states the search for preferred labellings comes through, and what holds in all of them,
whatever the solvers answer: when a session is open, that no clause without literals is added, that
a climb only ever gains arguments, and how often a solver is asked (`Preferred.IsOrderly`). Every
state that is reached keeps the invariant of the search (`Preferred.Reaches.invariant`), and what
each clause that is added has to be like is seen from the steps themselves
(`Preferred.AreFilled.step`). Main statement: `Preferred.reaches_orderly`.
-/

namespace Dialectic

open Dialectic.Sat (Clause Formula Session Solver)

variable {σ : Type} {f : Framework} {n : Nat} {v : LabelVariables} {S : Nat → Solver σ}

/-! ## Clauses with literals -/

/-- Whether a session has given its solver exactly the clauses of its formula, all of them with
literals. -/
structure Sat.Session.IsFilled (s : Session σ) : Prop where
  /-- The solver was given the clauses of the formula. -/
  given_eq : s.given = s.formula.clauses
  /-- Every clause has literals. -/
  ne_nil : ∀ c ∈ s.formula.clauses, c ≠ []

namespace Sat.Session.IsFilled

/-- A session on a formula whose clauses have literals. -/
theorem start {solver : Solver σ} {f : Formula} (h : ∀ c ∈ f.clauses, c ≠ []) :
    (start solver f).IsFilled :=
  ⟨given_start solver f, h⟩

/-- Asking a solver changes no clause. -/
theorem solve {s : Session σ} (h : s.IsFilled) : s.solve.1.IsFilled := by
  have hf : s.solve.1.formula = s.formula := by
    unfold Session.solve
    dsimp only
    split <;> rfl
  exact ⟨by rw [given_solve, hf, h.given_eq], by rw [hf]; exact h.ne_nil⟩

/-- A clause is only added if it has literals. -/
theorem addClause {s t : Session σ} (h : s.IsFilled) {c : Clause} (hadd : s.addClause c = .ok t) :
    t.IsFilled := by
  obtain ⟨f, hf, rfl⟩ := map_eq_ok_iff.1 hadd
  obtain ⟨hne, -, rfl⟩ := Formula.addClause_eq_ok_iff.1 hf
  refine ⟨?_, ?_⟩
  · rw [given_push]
    exact congrArg (· ++ [c]) h.given_eq
  · intro d hd
    rcases List.mem_append.1 hd with hd | hd
    · exact h.ne_nil d hd
    · rwa [List.mem_singleton.1 hd]

/-- Nor are several clauses added otherwise. -/
theorem foldlM_addClause {cs : List Clause} {s t : Session σ} (h : s.IsFilled)
    (hadd : cs.foldlM Session.addClause s = .ok t) : t.IsFilled := by
  induction cs generalizing s with
  | nil =>
    obtain rfl := Except.ok.inj hadd
    exact h
  | cons c cs ih =>
    rw [List.foldlM_cons] at hadd
    obtain ⟨u, hu, hadd⟩ := bind_eq_ok_iff.1 hadd
    exact ih (h.addClause hu) hadd

end Sat.Session.IsFilled

namespace Preferred

/-- Whether all clauses of a state of the search have literals. -/
structure AreFilled (s : State σ) : Prop where
  /-- Those of the base formula. -/
  base_ne_nil : ∀ c ∈ s.base.clauses, c ≠ []
  /-- Those of the session. -/
  isFilled : ∀ session, s.session = some session → session.IsFilled

/-- A base formula that is told to accept something else. -/
theorem ne_nil_of_addClause {f g : Formula} {c : Clause} (h : ∀ c ∈ f.clauses, c ≠ [])
    (hadd : f.addClause c = .ok g) : ∀ c ∈ g.clauses, c ≠ [] := by
  obtain ⟨hne, -, rfl⟩ := Formula.addClause_eq_ok_iff.1 hadd
  intro d hd
  rcases List.mem_append.1 hd with hd | hd
  · exact h d hd
  · rwa [List.mem_singleton.1 hd]

/-- A climb starts on a copy of the base formula. -/
theorem AreFilled.startClimb {s t : State σ} (h : AreFilled s) (hstep : startClimb S s = .ok t) :
    AreFilled t := by
  have hstart : (Session.start (S s.opened) s.base.copy).IsFilled := .start h.base_ne_nil
  have hsession := hstart.solve
  unfold Preferred.startClimb at hstep
  dsimp only at hstep
  split at hstep
  · cases hstep
  all_goals
    obtain rfl := Except.ok.inj hstep
    refine ⟨h.base_ne_nil, ?_⟩
    rintro _ ⟨⟩
    exact hsession

/-- What is fixed and what is asked for are clauses with literals. -/
theorem AreFilled.freezeAndExtend {s t : State σ} (h : AreFilled s) {session : Session σ}
    (hs : s.session = some session) (hstep : freezeAndExtend v session s = .ok t) :
    AreFilled t := by
  obtain ⟨u, hu, hstep⟩ := bind_eq_ok_iff.1 hstep
  have hfilled := (h.isFilled session hs).foldlM_addClause (mapError_eq_ok_iff.1 hu)
  dsimp only at hstep
  split at hstep
  · obtain rfl := Except.ok.inj hstep
    refine ⟨h.base_ne_nil, ?_⟩
    rintro _ ⟨⟩
    exact hfilled
  · obtain ⟨w, hw, hstep⟩ := bind_eq_ok_iff.1 hstep
    obtain rfl := Except.ok.inj hstep
    refine ⟨h.base_ne_nil, ?_⟩
    rintro _ ⟨⟩
    exact hfilled.addClause (mapError_eq_ok_iff.1 hw)

/-- Looking for more adds no clause. -/
theorem AreFilled.fixpointCheck {s t : State σ} (h : AreFilled s) {session : Session σ}
    (hs : s.session = some session) (hstep : fixpointCheck session s = .ok t) : AreFilled t := by
  have hsession := (h.isFilled session hs).solve
  unfold Preferred.fixpointCheck at hstep
  dsimp only at hstep
  split at hstep
  · cases hstep
  all_goals
    obtain rfl := Except.ok.inj hstep
    refine ⟨h.base_ne_nil, ?_⟩
    rintro _ ⟨⟩
    exact hsession

/-- Closing the session leaves the base formula. -/
@[simp] theorem base_closeSession (s : State σ) : s.closeSession.base = s.base := by
  unfold State.closeSession
  split <;> rfl

/-- There is no session after it is closed. -/
@[simp] theorem session_closeSession (s : State σ) : s.closeSession.session = none := by
  unfold State.closeSession
  split
  · rfl
  · assumption

/-- What is excluded is excluded by a clause with literals. -/
theorem AreFilled.recordAndExclude {s t : State σ} (h : AreFilled s)
    (hstep : recordAndExclude v s = .ok t) : AreFilled t := by
  obtain ⟨l, -, hstep⟩ := bind_eq_ok_iff.1 hstep
  dsimp only at hstep
  split at hstep
  · obtain rfl := Except.ok.inj hstep
    exact ⟨by simpa using h.base_ne_nil, by simp⟩
  · obtain ⟨base, hbase, hstep⟩ := bind_eq_ok_iff.1 hstep
    obtain rfl := Except.ok.inj hstep
    exact ⟨ne_nil_of_addClause (by simpa using h.base_ne_nil) (mapError_eq_ok_iff.1 hbase), by simp⟩

/-- **Clauses of a step.** Every step only adds clauses with literals. -/
theorem AreFilled.step {s t : State σ} (h : AreFilled s) (hstep : step S v s = .ok t) :
    AreFilled t := by
  unfold Preferred.step at hstep
  split at hstep
  · exact h.startClimb hstep
  · exact h.freezeAndExtend ‹_› hstep
  · exact h.fixpointCheck ‹_› hstep
  · exact h.recordAndExclude hstep
  · obtain rfl := Except.ok.inj hstep
    exact h
  · cases hstep

/-! ## The states that are reached -/

/-- One step of the search leads from a state to another. -/
def Leads (S : Nat → Solver σ) (v : LabelVariables) (s t : State σ) : Prop :=
  s.phase ≠ .done ∧ step S v s = .ok t

/-- The search from a base formula comes through a state. -/
def Reaches (S : Nat → Solver σ) (v : LabelVariables) (base : Formula) (s : State σ) : Prop :=
  Relation.ReflTransGen (Leads S v) (State.initial base) s

/-- What runs for a number of steps takes these steps. -/
theorem leads_of_run {fuel : Nat} {s t : State σ} (h : run S v fuel s = .ok t) :
    Relation.ReflTransGen (Leads S v) s t := by
  induction fuel generalizing s with
  | zero =>
    obtain rfl := Except.ok.inj h
    exact .refl
  | succ fuel ih =>
    rw [run] at h
    split at h
    · obtain rfl := Except.ok.inj h
      exact .refl
    · obtain ⟨u, hu, h⟩ := bind_eq_ok_iff.1 h
      exact .head ⟨‹_›, hu⟩ (ih h)

/-- Every state that is reached keeps the invariant of the search. -/
theorem Reaches.invariant (hn : f.size = n) (h₀ : 0 < n) {base : Formula}
    (hb : Encodes base.clauses n (f.IsCandidate [])) {s : State σ}
    (h : Reaches S (.first n) base s) : Invariant f n s := by
  induction h with
  | refl => exact invariant_initial hb
  | tail _ hlead ih =>
    obtain ⟨t, ht, hinv, -⟩ := step_spec hn h₀ S ih hlead.1
    rwa [Except.ok.inj (hlead.2.symm.trans ht)]

/-- In every state that is reached the clauses have literals, if those of the base formula do. -/
theorem Reaches.areFilled {base : Formula} (hb : ∀ c ∈ base.clauses, c ≠ []) {s : State σ}
    (h : Reaches S v base s) : AreFilled s := by
  induction h with
  | refl => exact ⟨hb, by simp [State.initial]⟩
  | tail _ hlead ih => exact ih.step hlead.2

/-! ## What holds in them -/

/-- Looking for more fixes nothing. -/
theorem frozen_of_fixpointCheck {s t : State σ} {session : Session σ}
    (h : fixpointCheck session s = .ok t) : t.frozen = s.frozen := by
  unfold fixpointCheck at h
  dsimp only at h
  split at h
  · cases h
  all_goals
    obtain rfl := Except.ok.inj h
    rfl

/-- A climb never loses an argument: where looking for more finds a model, it accepts more than the
one before. -/
theorem accepted_lt_of_step (hn : f.size = n) (h₀ : 0 < n) {s t : State σ} (h : Invariant f n s)
    (hp : s.phase = .fixpointCheck) (hstep : step S (.first n) s = .ok t)
    (ht : t.phase = .freezeAndExtend) :
    (LabelVariables.first n).accepted s.model ⊆ (LabelVariables.first n).accepted t.model ∧
      ¬ (LabelVariables.first n).accepted t.model ⊆ (LabelVariables.first n).accepted s.model := by
  have hph := h.phase_holds
  simp only [PhaseInvariant, hp] at hph
  obtain ⟨session, l, hc, -, hfrozen, -⟩ := hph
  -- What is fixed is still what was accepted before.
  have hsame : t.frozen = s.frozen := by
    rw [step, hp, hc.session_eq] at hstep
    exact frozen_of_fixpointCheck hstep
  obtain ⟨t', ht', hinv, -⟩ := step_spec hn h₀ S h (by simp [hp])
  obtain rfl := Except.ok.inj (hstep.symm.trans ht')
  have hph' := hinv.phase_holds
  simp only [PhaseInvariant, ht] at hph'
  obtain ⟨session', l', hc', -, hout, -⟩ := hph'
  rw [hsame] at hout
  rw [hc.describes.accepted_eq, hc'.describes.accepted_eq]
  exact ((Framework.outgrows_congr hfrozen).1 hout).2

/-- What the search keeps to in a state, of a framework with `n` arguments. -/
structure IsOrderly (S : Nat → Solver σ) (v : LabelVariables) (n : Nat) (s : State σ) : Prop where
  /-- In the phases of a climb there is a session, and it is open. -/
  isOpen : s.phase = .freezeAndExtend ∨ s.phase = .fixpointCheck ∨ s.phase = .recordAndExclude →
    ∃ session, s.session = some session ∧ session.isOpen
  /-- When a climb starts there is no session, and all that were opened are closed. -/
  closed_of_startClimb : s.phase = .startClimb → s.session = none ∧ s.closed = s.opened
  /-- Until the search is over the next step is made; in particular no clause that it adds is
  refused. -/
  exists_step_eq : s.phase ≠ .done → ∃ t, step S v s = .ok t
  /-- All clauses that were added have literals. -/
  areFilled : AreFilled s
  /-- Where looking for more finds a model, it accepts all that the one before accepts, and more. -/
  accepted_lt : ∀ t, s.phase = .fixpointCheck → step S v s = .ok t → t.phase = .freezeAndExtend →
    v.accepted s.model ⊆ v.accepted t.model ∧ ¬ v.accepted t.model ⊆ v.accepted s.model
  /-- The solver of the session was asked at most as often as there are arguments. -/
  calls_le : ∀ session, s.session = some session → session.calls ≤ n
  /-- At most one session more was opened than labellings were recorded. -/
  opened_le : s.opened ≤ s.found.length + 1

/-- The session is open in the phases of a climb. -/
theorem Invariant.exists_isOpen {s : State σ} (h : Invariant f n s)
    (hp : s.phase = .freezeAndExtend ∨ s.phase = .fixpointCheck ∨ s.phase = .recordAndExclude) :
    ∃ session, s.session = some session ∧ session.isOpen := by
  have hph := h.phase_holds
  obtain ⟨session, hs⟩ : ∃ session, s.session = some session := by
    rcases hp with hp | hp | hp <;> simp only [PhaseInvariant, hp] at hph
    · obtain ⟨session, l, hc, -⟩ := hph
      exact ⟨session, hc.session_eq⟩
    · obtain ⟨session, l, hc, -⟩ := hph
      exact ⟨session, hc.session_eq⟩
    · obtain ⟨session, l, hc, -⟩ := hph
      exact ⟨session, hc.session_eq⟩
  exact ⟨session, hs, (h.session_open session hs).1⟩

/-- What follows from the invariant. -/
theorem Invariant.isOrderly (hn : f.size = n) (h₀ : 0 < n) {s : State σ} (h : Invariant f n s)
    (hfilled : AreFilled s) : IsOrderly S (.first n) n s where
  isOpen := h.exists_isOpen
  closed_of_startClimb hp := by
    have hnone : s.session = none := by simpa [PhaseInvariant, hp] using h.phase_holds
    exact ⟨hnone, by rw [h.closed_eq, h.opened_eq, hnone]; rfl⟩
  exists_step_eq hp := by
    obtain ⟨t, ht, -⟩ := step_spec hn h₀ S h hp
    exact ⟨t, ht⟩
  areFilled := hfilled
  accepted_lt t hp hstep ht := accepted_lt_of_step hn h₀ h hp hstep ht
  calls_le session hs := (h.session_open session hs).2
  opened_le := by
    have := h.opened_eq
    have : s.session.toList.length ≤ 1 := by cases s.session <;> simp
    omega

/-- Once the session that is still open is closed, all that were opened are. -/
theorem Invariant.closed_closeSession {s : State σ} (h : Invariant f n s) :
    s.closeSession.closed = s.closeSession.opened := by
  unfold State.closeSession
  split
  · rename_i session hs
    rw [if_pos (h.session_open session hs).1, h.closed_eq, h.opened_eq, hs]
    rfl
  · rename_i hs
    rw [h.closed_eq, h.opened_eq, hs]
    rfl

/-- **The states of the search.** Whatever the solvers answer, all states that the search for the
preferred labellings comes through are orderly, and it comes to its end, with all sessions closed
that were opened. -/
theorem reaches_orderly (hf : f.WellFormed) (hn : f.size = n) (h₀ : 0 < n) (S : Nat → Solver σ) :
    ∃ encoding base, Encoding.complete f = .ok encoding ∧
      encoding.formula.addClause encoding.vars.nonEmptyClause = .ok base ∧
      (∀ s, Reaches S encoding.vars base s → IsOrderly S encoding.vars n s) ∧
      ∃ t, Reaches S encoding.vars base t ∧ t.phase = .done ∧ t.closeSession.session = none ∧
        t.closeSession.closed = t.closeSession.opened ∧
        (Engine.ofSolvers S).preferred f = .ok (labellings n t.closeSession) := by
  have hb := encodes_isCandidate hf hn
  have hne : ∀ c ∈ ((completeFormula n f).pushAll [acceptsOutside n []]).clauses, c ≠ [] := by
    refine ne_nil_of_addClause (fun c hc => ?_) (addClause_nonEmptyClause h₀ f)
    exact (isOver_of_mem_completeClauses hf hn c hc).1
  refine ⟨⟨completeFormula n f, .first n⟩, _, complete_eq hf hn,
    addClause_nonEmptyClause h₀ f, ?_, ?_⟩
  · intro s hs
    exact (hs.invariant hn h₀ hb).isOrderly hn h₀ (hs.areFilled hne)
  · obtain ⟨t, hrun, hinv, hdone⟩ :=
      run_spec hn h₀ S (stepBound n) (invariant_initial hb) (potential_initial_le n _)
    refine ⟨t, leads_of_run hrun, hdone, session_closeSession t, hinv.closed_closeSession, ?_⟩
    have hsize : (n : Int) ≠ 0 := by omega
    simp only [Engine.preferred, hn, if_neg hsize, complete_eq hf hn, addClause_nonEmptyClause h₀,
      mapError_ok, Engine.solvers, Engine.ofSolvers, search_eq_of_run hrun, bind, Except.bind, pure,
      Except.pure, Int.toNat_natCast]

/-- Two arguments that attack each other, and a third that the second attacks. -/
theorem reaches_orderly_mutual_attack :
    ∃ encoding base, Encoding.complete ⟨3, [⟨0, 1⟩, ⟨1, 0⟩, ⟨1, 2⟩], none⟩ = .ok encoding ∧
      encoding.formula.addClause encoding.vars.nonEmptyClause = .ok base ∧
      (∀ s, Reaches (fun _ => .learning) encoding.vars base s →
        IsOrderly (fun _ => .learning) encoding.vars 3 s) ∧
      ∃ t, Reaches (fun _ => .learning) encoding.vars base t ∧ t.phase = .done ∧
        t.closeSession.session = none ∧ t.closeSession.closed = t.closeSession.opened ∧
        (Engine.ofSolvers fun _ => .learning).preferred ⟨3, [⟨0, 1⟩, ⟨1, 0⟩, ⟨1, 2⟩], none⟩ =
          .ok (labellings 3 t.closeSession) :=
  reaches_orderly (by decide) rfl (by decide) fun _ => .learning

end Preferred

end Dialectic
