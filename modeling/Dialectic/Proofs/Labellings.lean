import Dialectic.Engine
import Dialectic.Proofs.Climbing

/-!
# The labellings computed

Whatever models the solvers answer with, the labellings that are computed for a well-formed
framework are those that the semantics admits, each once (`labellings_spec`): the models of the
clauses are read one by one for complete and stable labellings, and the search climbs to the
preferred ones. From this it follows what the computed extensions are, and that the preferred
labellings without undecided arguments are the stable ones.
-/

namespace Dialectic.Engine

open Dialectic.Sat (Session Solver)

variable {σ σ' : Type} {f : Framework} {n : Nat}

/-! ## One semantics at a time -/

/-- Reading the models of a session enumerates the labellings with the property that its clauses
encode. -/
theorem labellingsOf_spec {P : Labelling → Prop} (session : Session σ)
    (h : Encodes session.given n P) :
    ∃ ls, labellingsOf session (.first n) = .ok ls ∧ Enumerates P ls := by
  obtain ⟨ls, hls, hP⟩ :=
    h.enumerates_decode (Sat.enumerates_allModels session.solver session.state)
  refine ⟨ls, ?_, hP⟩
  rw [labellingsOf, Sat.readModels_eq, hls]
  rfl

/-- The complete labellings are enumerated. -/
theorem complete_spec (hf : f.WellFormed) (S : Nat → Solver σ) :
    ∃ ls, (ofSolvers S).complete f = .ok ls ∧ Enumerates f.IsComplete ls := by
  obtain ⟨n, hn⟩ := hf.exists_size_eq
  rw [complete, complete_eq hf hn]
  exact labellingsOf_spec _ (by simpa using encodes_complete hf hn)

/-- The stable labellings are enumerated. -/
theorem stable_spec (hf : f.WellFormed) (S : Nat → Solver σ) :
    ∃ ls, (ofSolvers S).stable f = .ok ls ∧ Enumerates f.IsStable ls := by
  obtain ⟨n, hn⟩ := hf.exists_size_eq
  rw [stable, stable_eq hf hn]
  exact labellingsOf_spec _ (by simpa using encodes_stable hf hn)

/-- What the search for preferred labellings records. Without arguments there is nothing to look
for. -/
def recorded (e : Engine σ) (f : Framework) : Except EngineError (List Labelling) := do
  if f.size = 0 then return []
  let encoding ← (Encoding.complete f).mapError .index
  let v := encoding.vars
  let base ← (encoding.formula.addClause v.nonEmptyClause).mapError .clause
  let S ← e.solvers
  let s ← (Preferred.search S v base).mapError .ofPreferred
  return s.found

/-- The preferred labellings are what the search records, or, if that is nothing, the labelling with
nothing decided. -/
theorem preferred_eq (e : Engine σ) (f : Framework) :
    e.preferred f = (e.recorded f).map fun found =>
      if found = [] then [List.replicate f.size.toNat .undecided] else found := by
  unfold preferred recorded
  by_cases h₀ : f.size = 0
  · simp [h₀, pure, Except.pure, Except.map]
  · rw [if_neg h₀, if_neg h₀]
    -- Each part of the search either fails on both sides or gives the same on both.
    cases (Encoding.complete f).mapError EngineError.index with
    | error _ => rfl
    | ok encoding =>
      cases hadd : (encoding.formula.addClause encoding.vars.nonEmptyClause).mapError
        EngineError.clause with
      | error _ => simp [hadd, bind, Except.bind, Except.map]
      | ok base =>
        cases hS : e.solvers with
        | error _ => simp [hadd, bind, Except.bind, Except.map]
        | ok S =>
          cases hs : (Preferred.search S encoding.vars base).mapError EngineError.ofPreferred <;>
            simp [hadd, hs, bind, Except.bind, Except.map, pure, Except.pure, Preferred.labellings]

/-- The search for preferred labellings records all that there is to record. -/
theorem recorded_spec (hf : f.WellFormed) (S : Nat → Solver σ) :
    ∃ found, (ofSolvers S).recorded f = .ok found ∧ f.Exhausted found := by
  obtain ⟨n, hn⟩ := hf.exists_size_eq
  by_cases h₀ : n = 0
  · subst h₀
    refine ⟨[], by simp [recorded, hn, pure, Except.pure], by simp, List.nodup_nil, fun l hl => ?_⟩
    -- Without arguments nothing can be accepted, so there never is a candidate.
    exact hl.accepted_ne_nil (List.subset_nil.1 (hl.isComplete.accepted_subset_range hn))
  · have hadd := Preferred.addClause_nonEmptyClause (Nat.pos_of_ne_zero h₀) f
    obtain ⟨t, ht, hfound⟩ :=
      Preferred.search_spec hn (by omega) S (Preferred.encodes_isCandidate hf hn)
    refine ⟨t.found, ?_, hfound⟩
    have hsize : (n : Int) ≠ 0 := by omega
    simp only [recorded, hn, if_neg hsize, complete_eq hf hn, hadd, mapError_ok, bind, Except.bind,
      pure, Except.pure, solvers, ofSolvers, ht]

/-- The preferred labellings are enumerated. -/
theorem preferred_spec (hf : f.WellFormed) (S : Nat → Solver σ) :
    ∃ ls, (ofSolvers S).preferred f = .ok ls ∧ Enumerates f.IsPreferred ls := by
  obtain ⟨found, hfound, h⟩ := recorded_spec hf S
  rw [preferred_eq, hfound]
  exact ⟨_, rfl, h.enumerates_isPreferred hf (Int.toNat_of_nonneg hf.1).symm⟩

/-- An engine with solvers computes what they compute, whatever else it does with clauses. -/
theorem labellings_eq {e : Engine σ} {S : Nat → Solver σ} (h : e.backend = .ok S) (f : Framework)
    (s : Semantics) : e.labellings f s = (ofSolvers S).labellings f s := by
  obtain ⟨backend, intake⟩ := e
  obtain rfl : backend = .ok S := h
  cases s <;> rfl

/-- **Every semantics.** Whatever models the solvers answer with, the labellings that a semantics
admits are computed, each once. -/
theorem labellings_spec (hf : f.WellFormed) (S : Nat → Solver σ) (s : Semantics) :
    ∃ ls, (ofSolvers S).labellings f s = .ok ls ∧ Enumerates (f.Admits s) ls := by
  cases s with
  | complete => exact complete_spec hf S
  | stable => exact stable_spec hf S
  | preferred => exact preferred_spec hf S

/-! ## What the labellings are -/

/-- **Preferred labellings.** Whatever models the solvers answer with, the list computed has exactly
the complete labellings that accept as much as possible, each once. -/
theorem preferred_exact (hf : f.WellFormed) (S : Nat → Solver σ) :
    ∃ ls, (ofSolvers S).preferred f = .ok ls ∧ ls.Nodup ∧
      ∀ l, l ∈ ls ↔ f.IsComplete l ∧
        ∀ l', f.IsComplete l' → l.accepted ⊆ l'.accepted → l'.accepted ⊆ l.accepted := by
  obtain ⟨ls, hls, h⟩ := preferred_spec hf S
  exact ⟨ls, hls, h.nodup, h.mem_iff⟩

/-- Two arguments that attack each other, and a third that the second attacks. -/
theorem preferred_exact_mutual_attack :
    ∃ ls, (ofSolvers fun _ => .learning).preferred ⟨3, [⟨0, 1⟩, ⟨1, 0⟩, ⟨1, 2⟩], none⟩ =
      .ok ls ∧ ls.Nodup ∧ ∀ l, l ∈ ls ↔ Framework.IsComplete ⟨3, [⟨0, 1⟩, ⟨1, 0⟩, ⟨1, 2⟩], none⟩ l ∧
        ∀ l', Framework.IsComplete ⟨3, [⟨0, 1⟩, ⟨1, 0⟩, ⟨1, 2⟩], none⟩ l' →
          l.accepted ⊆ l'.accepted → l'.accepted ⊆ l.accepted :=
  preferred_exact (by decide) fun _ => .learning

/-- **Complete and stable labellings.** Whatever models the solvers answer with, the complete
labellings are computed, each once, and those of them with nothing undecided, each once. -/
theorem complete_and_stable_exact (hf : f.WellFormed) (S : Nat → Solver σ) (S' : Nat → Solver σ') :
    ∃ ls ls', (ofSolvers S).complete f = .ok ls ∧ (ofSolvers S').stable f = .ok ls' ∧
      ls.Nodup ∧ ls'.Nodup ∧
      (∀ l, l ∈ ls ↔ f.IsComplete l) ∧ ∀ l, l ∈ ls' ↔ l ∈ ls ∧ .undecided ∉ l := by
  obtain ⟨ls, hls, h⟩ := complete_spec hf S
  obtain ⟨ls', hls', h'⟩ := stable_spec hf S'
  refine ⟨ls, ls', hls, hls', h.nodup, h'.nodup, h.mem_iff, fun l => ?_⟩
  rw [h'.mem_iff, h.mem_iff, Framework.IsStable]

/-- One argument that attacks itself, twice over, and one that nothing attacks. -/
theorem complete_and_stable_exact_self_attack :
    ∃ ls ls', (ofSolvers fun _ => .learning).complete ⟨2, [⟨0, 0⟩, ⟨0, 0⟩], none⟩ = .ok ls ∧
      (ofSolvers fun _ => .learning).stable ⟨2, [⟨0, 0⟩, ⟨0, 0⟩], none⟩ = .ok ls' ∧
        ls.Nodup ∧ ls'.Nodup ∧
      (∀ l, l ∈ ls ↔ Framework.IsComplete ⟨2, [⟨0, 0⟩, ⟨0, 0⟩], none⟩ l) ∧
      ∀ l, l ∈ ls' ↔ l ∈ ls ∧ .undecided ∉ l :=
  complete_and_stable_exact (by decide) (fun _ => .learning) fun _ => .learning

/-- **Stable among preferred.** Whatever models the solvers answer with on either way, the stable
labellings are the preferred ones with nothing undecided, in some order. -/
theorem stable_perm_preferred (hf : f.WellFormed) (S : Nat → Solver σ) (S' : Nat → Solver σ') :
    ∃ ls ls', (ofSolvers S).stable f = .ok ls ∧ (ofSolvers S').preferred f = .ok ls' ∧
      ls.Perm (ls'.filter fun l => decide (.undecided ∉ l)) := by
  obtain ⟨ls, hls, h⟩ := stable_spec hf S
  obtain ⟨ls', hls', h'⟩ := preferred_spec hf S'
  refine ⟨ls, ls', hls, hls', h.perm ((h'.filter _).congr fun l => ?_)⟩
  rw [decide_eq_true_iff, Framework.isStable_iff_isPreferred]

/-- Three arguments that attack each other in turn, and a fourth that attacks the first. -/
theorem stable_perm_preferred_odd_cycle :
    ∃ ls ls', (ofSolvers fun _ => .learning).stable
      ⟨4, [⟨0, 1⟩, ⟨1, 2⟩, ⟨2, 0⟩, ⟨3, 0⟩], none⟩ = .ok ls ∧
      (ofSolvers fun _ => .learning).preferred
        ⟨4, [⟨0, 1⟩, ⟨1, 2⟩, ⟨2, 0⟩, ⟨3, 0⟩], none⟩ = .ok ls' ∧
      ls.Perm (ls'.filter fun l => decide (.undecided ∉ l)) :=
  stable_perm_preferred (by decide) (fun _ => .learning) fun _ => .learning

/-! ## What the extensions are -/

/-- The number of an attack in a framework whose size can be written can be written as well. -/
theorem attackText_eq (hf : f.WellFormed) (hw : Integer.isWritable f.size) {a : Attack}
    (ha : a ∈ f.attacks) :
    Framework.attackText a =
      .ok ((toString a.origin).toList ++ '>' :: (toString a.target).toList) := by
  have h := hf.isWithin ha
  have ho := Integer.isWritable_of_natAbs_le (m := a.origin) (by omega) hw
  have ht := Integer.isWritable_of_natAbs_le (m := a.target) (by omega) hw
  simp [Framework.attackText, Integer.write, ho, ht, bind, Except.bind, pure, Except.pure]

/-- A well-formed framework is written as a value exactly if its size is not too long to be
written. -/
theorem exists_summary_eq (hf : f.WellFormed) :
    ∃ summary, f.summary = if Integer.isWritable f.size then .ok summary else .error .writing := by
  by_cases hw : Integer.isWritable f.size
  · refine ⟨f.summaryWith
      ("sha256:" ++ Digest.short ((toString f.size).toList ++ ':' :: List.intercalate [',']
        (f.attacks.map fun a => (toString a.origin).toList ++
          '>' :: (toString a.target).toList))), ?_⟩
    have hattacks := mapM_eq_ok (g := Framework.attackText) fun a ha => attackText_eq hf hw ha
    simp [Framework.summary, Framework.fingerprint, Framework.identityText, Integer.write, hw,
      hattacks, bind, Except.bind, pure, Except.pure, Except.map]
  · refine ⟨.null, ?_⟩
    simp [Framework.summary, Framework.fingerprint, Framework.identityText, Integer.write, hw, bind,
      Except.bind, Except.map]

/-- **Extensions.** Whatever models the solvers answer with, the extensions of a result are those of
the semantics, each once and in increasing order. There only is no result for a framework whose size
is too long to be written. -/
theorem extensions_exact (hf : f.WellFormed) (S : Nat → Solver σ) (s : Semantics)
    (elapsed : Binary64) :
    ∃ es : List (List Nat), es.Nodup ∧ (∀ e, e ∈ es ↔ e.Pairwise (· < ·) ∧ f.Extends s e) ∧
      ((ofSolvers S).resolve f s elapsed).map Resolution.extensions =
        if Integer.isWritable f.size then .ok es else .error (.size .writing) := by
  obtain ⟨ls, hls, h⟩ := labellings_spec hf S s
  obtain ⟨summary, hsummary⟩ := exists_summary_eq hf
  have hes := h.map (g := Labelling.accepted) fun l l' hl hl' hll =>
    (Framework.Admits.isComplete hl).eq_of_accepted (Framework.Admits.isComplete hl')
      (hll ▸ List.Subset.refl _) (hll ▸ List.Subset.refl _)
  refine ⟨ls.map Labelling.accepted, hes.nodup, fun e => ?_, ?_⟩
  · rw [hes.mem_iff]
    constructor
    · rintro ⟨l, hl, rfl⟩
      exact ⟨l.indices_pairwise_lt _, Framework.extends_accepted hf hl⟩
    · rintro ⟨hp, he⟩
      exact Framework.exists_admits hf hp he
  · rw [resolve, hls]
    by_cases hw : Integer.isWritable f.size
    · rw [if_pos hw] at hsummary ⊢
      rw [hsummary]
      rfl
    · rw [if_neg hw] at hsummary ⊢
      rw [hsummary]
      rfl

/-- A chain of attacks along four arguments. -/
theorem extensions_exact_chain :
    ∃ es : List (List Nat), es.Nodup ∧
      (∀ e, e ∈ es ↔ e.Pairwise (· < ·) ∧
        Framework.Extends ⟨4, [⟨0, 1⟩, ⟨1, 2⟩, ⟨2, 3⟩], none⟩ .preferred e) ∧
      ((ofSolvers fun _ => .learning).resolve ⟨4, [⟨0, 1⟩, ⟨1, 2⟩, ⟨2, 3⟩], none⟩ .preferred
        (Binary64.ofInt 0)).map Resolution.extensions =
        if Integer.isWritable 4 then .ok es else .error (.size .writing) :=
  extensions_exact (by decide) (fun _ => .learning) .preferred _

end Dialectic.Engine
