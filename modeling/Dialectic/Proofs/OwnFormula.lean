import Dialectic.Engine.InPlace
import Dialectic.Proofs.Enumeration
import Dialectic.Proofs.Outcome

/-!
# The formula of a session

The labellings of all models of a formula are found in a session on a copy of it, at a place of its
own. This finds what reading the models off the solver alone does (`Engine.enumerateAt_eq`), and all
formulas that were there before stay as they are (`Engine.prefix_enumerateAt`). Main statement:
`Engine.enumerate_exact`.
-/

namespace Dialectic

open Dialectic.Sat (Clause ClauseError Formula Intake IsTotal Model Session Solver block models)

variable {σ : Type}

/-- A session is open as soon as it is opened. -/
theorem Sat.Session.isOpen_of_openOn {solver : Solver σ} {intake : Intake} {f : Formula}
    {s : Session σ} (h : Session.openOn solver intake f = .ok s) : s.isOpen := by
  rw [openOn, bind_eq_ok_iff] at h
  obtain ⟨t, ht, hs⟩ := h
  rw [openReading, bind_eq_ok_iff] at ht
  obtain ⟨cs, -, ht⟩ := ht
  obtain rfl := Except.ok.inj ht
  obtain rfl := Except.ok.inj hs
  rfl

/-! ## The loop -/

namespace Held

/-- The formulas at other places stay as they are. -/
theorem getElem?_collect (v : LabelVariables) (h : Held σ) (before : List Labelling) {q : Nat}
    (hq : q ≠ h.place) : (h.collect v before).1[q]? = h.formulas[q]? := by
  fun_induction collect v h before with
  | case1 => rfl
  | case2 => rfl
  | case3 => rfl
  | case4 => rfl
  | case5 => rfl
  | case6 h before s m hs l hl hne t ht ih =>
    obtain ⟨f, hadd⟩ := exists_exclude_eq hs hne
    obtain rfl := Except.ok.inj (ht.symm.trans hadd)
    rw [ih hq, update, List.getElem?_set_ne (Ne.symm hq)]

/-- The labellings are those that are read off the solver alone. -/
theorem collect_eq (v : LabelVariables) {h : Held σ} (before : List Labelling)
    (ho : h.session.isOpen) :
    (h.collect v before).2 =
      (Sat.readModelsAfter h.session.solver v.decode h.session.state before).mapError .index := by
  fun_induction collect v h before with
  | case1 h before t e hs =>
    obtain ⟨u, answer, hu, -⟩ := Session.solve_of_isOpen ho
    rw [hu] at hs
    cases (Prod.mk.inj hs).2
  | case2 h before t hs =>
    obtain ⟨-, hsolve, -⟩ := Session.exists_of_solve_eq hs
    rw [Sat.readModelsAfter_of_none hsolve]
    rfl
  | case3 h before t m hs e he =>
    obtain ⟨-, hsolve, -⟩ := Session.exists_of_solve_eq hs
    rw [Sat.readModelsAfter_of_some hsolve, he]
    rfl
  | case4 h before t l hs hl =>
    obtain ⟨-, hsolve, -⟩ := Session.exists_of_solve_eq hs
    rw [Sat.readModelsAfter_of_some hsolve, hl]
    rfl
  | case5 h before t m hs l hl hne e he =>
    obtain ⟨f, hadd⟩ := exists_exclude_eq hs hne
    rw [hadd] at he
    cases he
  | case6 h before t m hs l hl hne u hu ih =>
    obtain ⟨f, hadd⟩ := exists_exclude_eq hs hne
    obtain rfl := Except.ok.inj (hu.symm.trans hadd)
    obtain ⟨-, hsolve, hsolver, hopen⟩ := Session.exists_of_solve_eq hs
    rw [ih hopen, Sat.readModelsAfter_of_some hsolve, hl]
    simp only [Except.bind, if_neg hne, update, Session.push, hsolver]

end Held

namespace Engine

variable {e : Engine σ} {S : Nat → Solver σ}

/-- What is found with formulas by place is what is found without them. -/
theorem enumerateAt_eq (e : Engine σ) (formulas : List Formula) (place : Fin formulas.length)
    (v : LabelVariables) :
    (e.enumerateAt formulas place v).2 = e.enumerate (formulas.get place) v := by
  unfold enumerateAt enumerate
  dsimp only
  generalize formulas.get place = f
  cases hS : e.solvers with
  | error e => rfl
  | ok S =>
    cases hs : Session.openOn (S 0) e.intake f.copy with
    | error e => simp [hs, bind, Except.bind]
    | ok s =>
      simp only [hs, bind, Except.bind, mapError_ok]
      exact Held.collect_eq v [] (Session.isOpen_of_openOn hs)

/-- **The formulas that were there.** All of them stay as they are, that of which the models are
found among them. -/
theorem prefix_enumerateAt (e : Engine σ) (formulas : List Formula) (place : Fin formulas.length)
    (v : LabelVariables) : formulas <+: (e.enumerateAt formulas place v).1 := by
  unfold enumerateAt
  dsimp only
  split
  · exact List.prefix_append _ _
  · rw [List.prefix_iff_getElem?]
    intro q hq
    rw [Held.getElem?_collect v _ _ (by dsimp only; omega), List.getElem?_append_left hq,
      List.getElem?_eq_getElem hq]

/-! ## What is found -/

/-- A session is opened on clauses that the solver takes as they are. -/
theorem exists_openOn_eq (solver : Solver σ) {intake : Intake} (hi : intake.TakesFit) {f : Formula}
    (hfit : ∀ c ∈ f.clauses, ∀ l ∈ c, Intake.IsFit l) :
    ∃ s, Session.openOn solver intake f = .ok s ∧ s.given = f.clauses := by
  have hread : (f.clauses.map (·.map Json.int)).mapM intake.clauseOf = .ok f.clauses := by
    rw [List.mapM_map]
    exact (mapM_eq_ok fun c hc => hi.clauseOf_eq (hfit c hc)).trans (by rw [List.map_id'])
  refine ⟨{ Session.start solver (.ofClauses f.clauses 0) with intake := intake, formula := f },
    ?_, ?_⟩
  · simp [Session.openOn, Session.openReading, hread, bind, Except.bind, pure, Except.pure]
  · exact Session.given_start solver (.ofClauses f.clauses 0)

/-- Every model is read where no argument with a variable for being accepted lacks one for being
rejected. -/
theorem exists_decode_eq {v : LabelVariables} (hv : v.inn.length ≤ v.out.length) (m : Model) :
    ∃ l, v.decode m = .ok l := by
  refine ⟨_, mapM_eq_ok (r := fun p => if p.1 ∈ trueVariables m then .accepted
    else if v.out.getD p.2 0 ∈ trueVariables m then .rejected else .undecided) fun p hp => ?_⟩
  have hlt : p.2 < v.out.toArray.size := by
    have := (List.mem_zipIdx hp).2.1
    simp only [List.size_toArray]
    omega
  unfold decodeAt
  split
  · rfl
  · rw [Index.read_natCast .tuple hlt]
    simp [bind, Except.bind, pure, Except.pure, List.getElem?_eq_getElem (by simpa using hlt)]

/-- **The models of a formula.** An engine with solvers that take the literals of a formula reads
each of its models once. -/
theorem enumerate_spec (he : e.backend = .ok S) (hi : e.intake.TakesFit) {f : Formula}
    (hfit : ∀ c ∈ f.clauses, ∀ l ∈ c, Intake.IsFit l) {v : LabelVariables}
    (hv : v.inn.length ≤ v.out.length) :
    ∃ ms ls, Enumerates (· ∈ models f.clauses) ms ∧
      List.Forall₂ (fun m l => v.decode m = .ok l) ms ls ∧ e.enumerate f v = .ok ls := by
  obtain ⟨s, hs, hgiven⟩ := exists_openOn_eq (S 0) hi (f := f.copy) hfit
  choose l hl using exists_decode_eq hv
  refine ⟨Sat.allModels s.solver s.state, (Sat.allModels s.solver s.state).map l, ?_, ?_, ?_⟩
  · have henum := Sat.enumerates_allModels s.solver s.state
    rwa [show s.solver.given s.state = f.clauses from hgiven] at henum
  · rw [List.forall₂_map_right_iff, List.forall₂_same]
    exact fun m _ => hl m
  · simp only [enumerate, solvers, he, mapError_ok, bind, Except.bind, hs, labellingsOf,
      Sat.readModels_eq]
    rw [mapM_eq_ok fun m _ => hl m, mapError_ok]

/-- **All labellings of a formula.** Whatever models the solvers answer with, a labelling is read
off every total model of a formula, over the variables up to the largest that occurs, and nothing
else is found; what models have in common is repeated. The formula and all others that are there
stay as they are. The literals have to be such that all solvers take them. -/
theorem enumerate_exact (he : e.backend = .ok S) (hi : e.intake.TakesFit) (formulas : List Formula)
    (place : Fin formulas.length)
    (hfit : ∀ c ∈ (formulas.get place).clauses, ∀ l ∈ c, Intake.IsFit l) {v : LabelVariables}
    (hv : v.inn.length ≤ v.out.length) :
    ∃ after ms ls, e.enumerateAt formulas place v = (after, .ok ls) ∧ formulas <+: after ∧
      e.enumerate (formulas.get place) v = .ok ls ∧ ms.Nodup ∧
      (∀ m, m ∈ ms ↔ IsTotal (Sat.maxVar (formulas.get place).clauses) m ∧
        Sat.satisfies m (formulas.get place).clauses) ∧
      List.Forall₂ (fun m l => v.decode m = .ok l) ms ls := by
  obtain ⟨ms, ls, hms, hread, hls⟩ := enumerate_spec he hi hfit hv
  refine ⟨(e.enumerateAt formulas place v).1, ms, ls, Prod.ext rfl ?_,
    prefix_enumerateAt _ _ _ _, hls, hms.nodup, fun m => ?_, hread⟩
  · rw [enumerateAt_eq, hls]
  · rw [hms.mem_iff, Sat.mem_models]

/-- The solvers that can be asked for by name take the literals that all solvers take. -/
theorem takesFit_named (name : Json) : (named name).intake.TakesFit := by
  obtain ⟨k, hk⟩ := exists_intake_named name
  rw [hk]
  exact k.takesFit

/-- A formula with a clause that always holds and a literal twice, besides another formula; the
labels of two arguments share a variable, and one of them does not occur. -/
theorem enumerate_exact_two_formulas :
    ∃ after ms ls, (named (.str Intake.defaultName)).enumerateAt
        [.ofClauses [[1, -1], [2, 2]] 7, .ofClauses [[-1]] 0] 0 ⟨[1, 9], [2, 2], [3, 4]⟩ =
          (after, .ok ls) ∧
      [.ofClauses [[1, -1], [2, 2]] 7, .ofClauses [[-1]] 0] <+: after ∧
      (named (.str Intake.defaultName)).enumerate (.ofClauses [[1, -1], [2, 2]] 7)
        ⟨[1, 9], [2, 2], [3, 4]⟩ = .ok ls ∧
      ms.Nodup ∧
      (∀ m, m ∈ ms ↔ IsTotal (Sat.maxVar [[1, -1], [2, 2]]) m ∧
        Sat.satisfies m [[1, -1], [2, 2]]) ∧
      List.Forall₂ (fun m l => LabelVariables.decode ⟨[1, 9], [2, 2], [3, 4]⟩ m = .ok l) ms ls :=
  enumerate_exact (backend_named (by decide +kernel)) (takesFit_named _)
    [.ofClauses [[1, -1], [2, 2]] 7, .ofClauses [[-1]] 0] 0 (by decide) (by decide)

/-- A literal is read as a number of thirty-two bits. One of which those are all zero is refused,
also in a formula that has no models. -/
theorem enumerate_wide_literals :
    (∀ c ∈ [[4294967296], [-4294967296]], c ≠ [] ∧ (0 : Int) ∉ c) ∧
      (∀ m, ¬ (IsTotal (Sat.maxVar [[4294967296], [-4294967296]]) m ∧
        Sat.satisfies m [[4294967296], [-4294967296]])) ∧
      (named (.str Intake.defaultName)).enumerate (.ofClauses [[4294967296], [-4294967296]] 0)
        ⟨[1], [1], [1]⟩ = .error (.session (.refusal .zero)) := by
  refine ⟨by decide, ?_, ?_⟩
  · rintro m ⟨htotal, hsat⟩
    have hboth : (4294967296 : Int) ∈ m ∧ (-4294967296 : Int) ∈ m := by
      simpa [Sat.satisfies_iff] using hsat
    exact htotal.neg_not_mem hboth.1 hboth.2
  · obtain ⟨k, hk⟩ := exists_intake_named (.str Intake.defaultName)
    have hrefused : k.intake.clauseOf [.int 4294967296] = .error .zero := rfl
    have hsolvers : (named (.str Intake.defaultName)).solvers = .ok fun _ => .learning := by
      rw [solvers, backend_named (by decide +kernel)]
      rfl
    simp [enumerate, hsolvers, hk, Session.openOn, Session.openReading, hrefused, bind, Except.bind]

end Engine

end Dialectic
