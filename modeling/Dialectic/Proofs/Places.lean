import Dialectic.Proofs.InStep
import Dialectic.Proofs.Likeness

/-!
# Places on a bench

On a bench formulas are kept by place, and names and sessions lead to places. Every step is
addressed to the formula at one place, or to none (`Bench.addressed`). Main statement: what can come
of a step (`Bench.outcome_step`); a formula that is there is changed only at the place that the step
is addressed to, and as the step does it there.
-/

namespace Dialectic.Sat

/-- In a session a clause is added to the formula as it is without one, whatever the solver does
with it. -/
theorem Session.settled_formula_add {σ : Type} (s : Session σ) (lits : List Json) :
    AnyFormula.settled (s.add lits).1.formula =
      (AnyFormula.settled s.formula).step (.addClause lits) := by
  have hperform : (AnyFormula.settled s.formula).perform (.addClause lits) =
      (((s.formula.addValues lits).map AnyFormula.settled).map fun g => ([], g)).mapError
        .session := rfl
  rw [Session.add]
  cases hadd : s.formula.addValues lits with
  | error e =>
    rw [hadd] at hperform
    exact (AnyFormula.step_of_perform_eq_error hperform).symm
  | ok f =>
    rw [hadd] at hperform
    rw [AnyFormula.step_of_perform_eq_ok hperform]
    exact congrArg AnyFormula.settled (formula_give _ lits)

/-! ## What is done on a bench -/

/-- What is done on a bench. -/
inductive BenchStep where
  /-- A formula of some clauses is put on the bench. -/
  | new (name clauses top : Json)
  /-- A formula is asked for some variables. -/
  | newVariables (name n : Json)
  /-- A formula is asked for the variables of the statuses of some arguments. -/
  | newLabels (name n : Json)
  /-- A clause is added to a formula. -/
  | add (name lits : Json)
  /-- A copy of a formula is put on the bench. -/
  | copy (name target : Json)
  /-- A session is opened on a formula. -/
  | openSession (name formula solver : Json)
  /-- A clause is added in a session. -/
  | sessionAdd (name lits : Json)
  /-- The solver of a session is asked for a model. -/
  | solve (name : Json)
  /-- A session is closed. -/
  | close (name : Json)

/-- Whether a step is taken with the formula of one name or in the session of another one. -/
def BenchStep.IsThrough (name session : Json) : BenchStep → Prop
  | .newVariables n _ | .newLabels n _ | .add n _ => n = name
  | .sessionAdd s _ | .solve s | .close s => s = session
  | _ => False

namespace Bench

/-- The bench that something results in, or the same as before if it fails. -/
def orStay (b : Bench) : Except BenchError Bench → Bench
  | .ok c => c
  | .error _ => b

/-- The bench with one more formula, which has a name. -/
def placed (b : Bench) (name : Json) (f : AnyFormula) : Bench :=
  { b with formulas := b.formulas ++ [f], names := Json.enter b.names name b.formulas.length }

/-- The bench after one step, whether it fails or not. -/
def step (b : Bench) : BenchStep → Bench
  | .new name clauses top => b.orStay ((b.new name clauses top).map (·.1))
  | .newVariables name n => b.orStay ((b.newVariables name n).map (·.1))
  | .newLabels name n => b.orStay ((b.newLabels name n).map (·.1))
  | .add name lits => b.orStay ((b.add name lits).map (·.1))
  | .copy name target => b.orStay ((b.copy name target).map (·.1))
  | .openSession name formula solver => b.orStay (b.openSession name formula solver)
  | .sessionAdd name lits => (b.sessionAdd name lits).1
  | .solve name => (b.solve name).1
  | .close name => b.orStay (b.close name)

/-- The bench after some steps. -/
def run (b : Bench) (steps : List BenchStep) : Bench := steps.foldl step b

/-- The place of the formula of a name. -/
def place? (b : Bench) (name : Json) : Option Nat := (b.find name).toOption.map (·.1)

/-- The place of the formula that the session of a name works on. -/
def sessionPlace? (b : Bench) (name : Json) : Option Nat :=
  (b.session name).toOption.map (·.1.place)

/-- What a step does with a formula, and at which place that is. -/
def addressed (b : Bench) : BenchStep → Option (Nat × FormulaStep)
  | .newVariables name n => (b.place? name).map (·, .newVariables n)
  | .newLabels name n => (b.place? name).map (·, .newLabels n)
  | .add name lits => lits.items.toOption.bind fun items =>
    (b.place? name).map (·, .addClause items)
  | .sessionAdd name lits => lits.items.toOption.bind fun items =>
    (b.sessionPlace? name).map (·, .addClause items)
  | _ => none

/-- What a step does with the formula at a place. -/
def stepsAt (b : Bench) (place : Nat) (a : BenchStep) : List FormulaStep :=
  ((b.addressed a).filter (·.1 = place)).toList.map (·.2)

/-- What some steps do with the formula at a place, one after the other. -/
def stepsOn (place : Nat) : Bench → List BenchStep → List FormulaStep
  | _, [] => []
  | b, a :: steps => b.stepsAt place a ++ stepsOn place (b.step a) steps

variable {b c : Bench} {name target session lits : Json} {place q : Nat} {f g : AnyFormula}
  {s : FormulaStep} {w : Work}

/-! ## Where names and sessions lead -/

/-- A formula is found exactly if its name can be a key and leads to it. -/
theorem find_eq_ok_iff : b.find name = .ok (place, f) ↔
    name.isKey ∧ Json.lookup? b.names name = some place ∧ b.formulas[place]? = some f := by
  rw [find, bind_eq_ok_iff]
  simp only [mapError_eq_ok_iff, Json.key_eq_ok_iff]
  constructor
  · rintro ⟨v, ⟨hkey, rfl⟩, h⟩
    refine ⟨hkey, ?_⟩
    cases hp : Json.lookup? b.names v with
    | none => simp [hp] at h
    | some p =>
      cases hf : b.formulas[p]? with
      | none => simp [hp, hf] at h
      | some k =>
        simp only [hp, hf, Option.bind_some, Option.map_some] at h
        obtain ⟨rfl, rfl⟩ := Prod.mk.inj (Except.ok.inj h)
        exact ⟨rfl, hf⟩
  · rintro ⟨hkey, hp, hf⟩
    refine ⟨name, ⟨hkey, rfl⟩, ?_⟩
    simp only [hp, hf, Option.bind_some, Option.map_some]
    rfl

theorem place?_of_find (h : b.find name = .ok (place, f)) : b.place? name = some place := by
  rw [place?, h]
  rfl

/-- A name leads to a place exactly if it can be a key, it is listed with that place, and there is a
formula. -/
theorem place?_eq_some_iff : b.place? name = some place ↔
    name.isKey ∧ Json.lookup? b.names name = some place ∧ place < b.formulas.length := by
  have hfind : b.place? name = some place ↔ ∃ f, b.find name = .ok (place, f) := by
    constructor
    · intro h
      rw [place?] at h
      cases hfind : b.find name with
      | error e => simp [hfind, Except.toOption] at h
      | ok r =>
        rw [hfind] at h
        obtain rfl := Option.some.inj h
        exact ⟨r.2, rfl⟩
    · rintro ⟨f, h⟩
      exact place?_of_find h
  have hsome : (∃ f, b.formulas[place]? = some f) ↔ place < b.formulas.length := by
    constructor
    · rintro ⟨f, hf⟩
      exact (List.getElem?_eq_some_iff.1 hf).1
    · intro hlt
      exact ⟨_, List.getElem?_eq_getElem hlt⟩
  simp only [hfind, find_eq_ok_iff, exists_and_left, hsome]

/-- A session is one that is kept under the name, with the formula at its place, if there is one. -/
theorem session_eq_ok (h : b.session name = .ok (w, f)) : name.isKey ∧
    (Json.lookup? b.sessions name).map (·.place) = some w.place ∧
      (∀ g, f = .settled g → w.session.formula = g) ∧
      ∀ g, b.formulas[w.place]? = some g → f = g := by
  rw [Bench.session, bind_eq_ok_iff] at h
  obtain ⟨v, hv, h⟩ := h
  obtain ⟨hkey, rfl⟩ := Json.key_eq_ok_iff.1 (mapError_eq_ok_iff.1 hv)
  refine ⟨hkey, ?_⟩
  split at h
  · cases h
  · rename_i u hu
    rw [hu]
    split at h
    · rename_i g hg
      obtain ⟨rfl, rfl⟩ := Prod.mk.inj (Except.ok.inj h)
      simp [hg]
    · rename_i k hk hdraft
      obtain ⟨rfl, rfl⟩ := Prod.mk.inj (Except.ok.inj h)
      refine ⟨rfl, fun g hg => (hk g hg).elim, ?_⟩
      simp [hdraft]
    · rename_i hnone
      obtain ⟨rfl, rfl⟩ := Prod.mk.inj (Except.ok.inj h)
      simp [hnone]

theorem sessionPlace?_of_session (h : b.session name = .ok (w, f)) :
    b.sessionPlace? name = some w.place := by
  rw [sessionPlace?, h]
  rfl

/-- The name of a session leads to the place of its formula. -/
theorem sessionPlace?_eq_some_iff : b.sessionPlace? name = some place ↔
    name.isKey ∧ (Json.lookup? b.sessions name).map (·.place) = some place := by
  rw [sessionPlace?]
  constructor
  · intro h
    cases hsession : b.session name with
    | error e =>
      rw [hsession] at h
      cases h
    | ok r =>
      rw [hsession] at h
      obtain rfl := Option.some.inj h
      obtain ⟨hkey, hlookup, -⟩ := session_eq_ok (w := r.1) (f := r.2) hsession
      exact ⟨hkey, hlookup⟩
  · rintro ⟨hkey, h⟩
    obtain ⟨w, hw, rfl⟩ := Option.map_eq_some_iff.1 h
    rw [Bench.session, Json.key, if_pos hkey]
    simp only [mapError_ok, bind, Except.bind, hw]
    split <;> rfl

/-- A session that is kept under a name works on the formula at its place. -/
theorem sessionPlace?_setSession (hkey : session.isKey) (b : Bench) (w : Work) :
    (b.setSession session w).sessionPlace? session = some w.place := by
  refine sessionPlace?_eq_some_iff.2 ⟨hkey, ?_⟩
  rw [setSession, Json.lookup?_enter (Json.isSame_self hkey)]
  rfl

/-! ## What single steps do -/

@[simp] theorem length_set (b : Bench) (place : Nat) (f : AnyFormula) :
    (b.set place f).formulas.length = b.formulas.length := List.length_set

@[simp] theorem length_setSession (b : Bench) (session : Json) (w : Work) :
    (b.setSession session w).formulas.length = b.formulas.length := rfl

@[simp] theorem length_placed (b : Bench) (name : Json) (f : AnyFormula) :
    (b.placed name f).formulas.length = b.formulas.length + 1 := List.length_append

/-- To put a formula back where it is changes nothing. -/
theorem set_self (h : b.formulas[place]? = some f) : b.set place f = b := by
  obtain ⟨hlt, rfl⟩ := List.getElem?_eq_some_iff.1 h
  rw [set, List.set_getElem_self]

/-- The bench on which something was done with the formula of a name. -/
def alter (b : Bench) (name : Json) (s : FormulaStep) : Bench :=
  match b.find name with
  | .ok (place, f) => b.set place (f.step s)
  | .error _ => b

/-- To alter a formula is to put it back one step further. -/
theorem alter_of_find (h : b.find name = .ok (place, f)) (s : FormulaStep) :
    b.alter name s = b.set place (f.step s) := by
  rw [alter, h]

/-- If nothing can be done with the formula of a name, the bench stays as it is. -/
theorem orStay_perform (b : Bench) (name : Json) (s : FormulaStep) :
    b.orStay (b.find name >>= fun r => (r.2.perform s).map fun k => b.set r.1 k.2) =
      b.alter name s := by
  cases hfind : b.find name with
  | error e =>
    rw [alter, hfind]
    rfl
  | ok r =>
    rw [alter_of_find hfind, AnyFormula.step]
    show b.orStay ((r.2.perform s).map _) = _
    cases r.2.perform s with
    | error e => exact (set_self (find_eq_ok_iff.1 hfind).2.2).symm
    | ok k => rfl

theorem step_newVariables (b : Bench) (name n : Json) :
    b.step (.newVariables name n) = b.alter name (.newVariables n) := by
  rw [← orStay_perform, step, newVariables]
  cases b.find name with
  | error e => rfl
  | ok r =>
    show b.orStay (Except.map _ ((r.2.newVariables n).mapError .allocation >>= _)) =
        b.orStay (Except.map _ (r.2.perform _))
    rw [AnyFormula.perform]
    cases r.2.newVariables n <;> rfl

theorem step_newLabels (b : Bench) (name n : Json) :
    b.step (.newLabels name n) = b.alter name (.newLabels n) := by
  rw [← orStay_perform, step, newLabels]
  cases b.find name with
  | error e => rfl
  | ok r =>
    show b.orStay (Except.map _ ((LabelVariables.allocateAny r.2 n).mapError .allocation >>= _)) =
      b.orStay (Except.map _ (r.2.perform _))
    rw [AnyFormula.perform]
    cases LabelVariables.allocateAny r.2 n <;> rfl

theorem step_add {items : List Json} (hitems : lits.items = .ok items) (b : Bench) (name : Json) :
    b.step (.add name lits) = b.alter name (.addClause items) := by
  rw [← orStay_perform, step, add, hitems]
  cases b.find name with
  | error e => rfl
  | ok r =>
    show b.orStay (Except.map _ ((r.2.addValues items).mapError .session >>= _)) =
        b.orStay (Except.map _ (r.2.perform _))
    rw [AnyFormula.perform]
    cases r.2.addValues items <;> rfl

theorem step_add_of_error {e : Json.Misuse} (hitems : lits.items = .error e) (b : Bench)
    (name : Json) : b.step (.add name lits) = b := by
  rw [step, add, hitems]
  cases b.find name <;> rfl

/-- A clause is added in a session to the formula that it works on. -/
theorem addTo_spec (h : ∀ g, f = .settled g → w.session.formula = g) (items : List Json) :
    (addTo w f items).1.place = w.place ∧ (addTo w f items).2.1 = f.step (.addClause items) := by
  cases f with
  | settled g =>
    obtain rfl := h g rfl
    exact ⟨rfl, w.session.settled_formula_add items⟩
  | draft d =>
    rw [addTo, AnyFormula.step, AnyFormula.perform]
    cases (AnyFormula.draft d).addValues items with
    | error e => exact ⟨rfl, rfl⟩
    | ok k => exact ⟨rfl, rfl⟩

/-- A clause for a session changes nothing, or it is a step on the formula of that session. -/
theorem step_sessionAdd_cases (b : Bench) (name lits : Json) :
    b.addressed (.sessionAdd name lits) = none ∧ b.step (.sessionAdd name lits) = b ∨
      ∃ (w : Work) (s : FormulaStep) (f : AnyFormula),
        b.addressed (.sessionAdd name lits) = some (w.place, s) ∧
        b.sessionPlace? name = some w.place ∧ (∀ g, b.formulas[w.place]? = some g → f = g) ∧
        b.step (.sessionAdd name lits) = (b.set w.place (f.step s)).setSession name w := by
  rw [addressed, step, sessionAdd]
  cases hsession : b.session name with
  | error e =>
    left
    rw [sessionPlace?, hsession]
    cases lits.items <;> exact ⟨rfl, rfl⟩
  | ok r =>
    obtain ⟨u, f⟩ := r
    obtain ⟨-, -, hformula, hf⟩ := session_eq_ok hsession
    have hplace := sessionPlace?_of_session hsession
    cases hitems : lits.items with
    | error e => exact .inl ⟨rfl, rfl⟩
    | ok items =>
      obtain ⟨hw, hstep⟩ := addTo_spec hformula items
      refine .inr ⟨(addTo u f items).1, .addClause items, f, ?_, ?_, ?_, ?_⟩
      · rw [hplace, hw]
        rfl
      · rw [hplace, hw]
      · rw [hw]
        exact hf
      · rw [← hstep]

/-- Solving changes nothing, or only what the session knows. -/
theorem step_solve_cases (b : Bench) (name : Json) : b.step (.solve name) = b ∨
    ∃ w : Work, b.sessionPlace? name = some w.place ∧
      b.step (.solve name) = b.setSession name w := by
  rw [step, solve]
  cases hsession : b.session name with
  | error e => exact .inl rfl
  | ok r =>
    have hplace : b.sessionPlace? name = some r.1.place := sessionPlace?_of_session hsession
    exact .inr ⟨{ r.1 with session := r.1.session.solve.1 }, hplace, rfl⟩

/-- Closing changes no more than that. -/
theorem step_close_cases (b : Bench) (name : Json) : b.step (.close name) = b ∨
    ∃ w : Work, b.sessionPlace? name = some w.place ∧
      b.step (.close name) = b.setSession name w := by
  rw [step, close]
  cases hsession : b.session name with
  | error e => exact .inl rfl
  | ok r =>
    have hplace : b.sessionPlace? name = some r.1.place := sessionPlace?_of_session hsession
    exact .inr ⟨{ r.1 with session := r.1.session.close }, hplace, rfl⟩

theorem put_eq_ok_iff : b.put name f = .ok c ↔ name.isKey ∧ c = b.placed name f := by
  rw [put, bind_eq_ok_iff]
  simp only [mapError_eq_ok_iff, Json.key_eq_ok_iff]
  constructor
  · rintro ⟨v, ⟨hkey, rfl⟩, h⟩
    exact ⟨hkey, (Except.ok.inj h).symm⟩
  · rintro ⟨hkey, rfl⟩
    exact ⟨name, ⟨hkey, rfl⟩, rfl⟩

theorem put_of_new {clauses top : Json} (h : b.new name clauses top = .ok (c, f)) :
    b.put name f = .ok c := by
  rw [new, bind_eq_ok_iff] at h
  obtain ⟨k, -, h⟩ := h
  obtain ⟨d, hd, h⟩ := bind_eq_ok_iff.1 h
  obtain ⟨rfl, rfl⟩ := Prod.mk.inj (Except.ok.inj h)
  exact hd

theorem put_of_copy (h : b.copy name target = .ok (c, f)) : b.put target f = .ok c := by
  rw [copy, bind_eq_ok_iff] at h
  obtain ⟨r, -, h⟩ := h
  obtain ⟨k, -, h⟩ := bind_eq_ok_iff.1 h
  obtain ⟨d, hd, h⟩ := bind_eq_ok_iff.1 h
  obtain ⟨rfl, rfl⟩ := Prod.mk.inj (Except.ok.inj h)
  exact hd

/-- The copy of a settled formula is placed under its own name. -/
theorem copy_settled {k : Formula} (h : b.find name = .ok (place, .settled k))
    (hkey : target.isKey) :
    b.copy name target = .ok (b.placed target (.settled k.copy), .settled k.copy) := by
  rw [copy, h]
  show (b.put target (.settled k.copy) >>= _) = _
  rw [put_eq_ok_iff.2 ⟨hkey, rfl⟩]
  rfl

/-- A session that is opened belongs to the formula that its name leads to. -/
theorem openSession_eq_ok {formula solver : Json} (h : b.openSession name formula solver = .ok c) :
    name.isKey ∧
    ∃ w : Work, b.place? formula = some w.place ∧ c = b.setSession name w := by
  rw [openSession, bind_eq_ok_iff] at h
  obtain ⟨r, hr, h⟩ := h
  obtain ⟨intake, -, h⟩ := bind_eq_ok_iff.1 h
  obtain ⟨u, -, h⟩ := bind_eq_ok_iff.1 h
  obtain ⟨v, hv, hc⟩ := bind_eq_ok_iff.1 h
  obtain ⟨hkey, rfl⟩ := Json.key_eq_ok_iff.1 (mapError_eq_ok_iff.1 hv)
  exact ⟨hkey, ⟨r.1, u⟩, place?_of_find hr, (Except.ok.inj hc).symm⟩

/-! ## What comes of a step -/

/-- What can come of a step. -/
inductive Outcome (b : Bench) (a : BenchStep) : Bench → Prop where
  /-- Nothing is changed. -/
  | same (ha : b.addressed a = none) : Outcome b a b
  /-- A formula is put on the bench. -/
  | put {name : Json} {f : AnyFormula} (ha : b.addressed a = none) (hkey : name.isKey) :
      Outcome b a (b.placed name f)
  /-- A session is opened on a formula that has a name, or it goes on where it is. -/
  | keep {name : Json} {w : Work} (ha : b.addressed a = none) (hkey : name.isKey)
    (hplace : (∃ formula, b.place? formula = some w.place) ∨ b.sessionPlace? name = some w.place) :
    Outcome b a (b.setSession name w)
  /-- A formula is changed. -/
  | change {place : Nat} {s : FormulaStep} {f : AnyFormula} (ha : b.addressed a = some (place, s))
    (hf : b.formulas[place]? = some f) : Outcome b a (b.set place (f.step s))
  /-- A formula is changed in a session. -/
  | changeIn {name : Json} {w : Work} {s : FormulaStep} {f : AnyFormula}
      (ha : b.addressed a = some (w.place, s)) (hplace : b.sessionPlace? name = some w.place)
      (hf : ∀ g, b.formulas[w.place]? = some g → f = g) :
    Outcome b a ((b.set w.place (f.step s)).setSession name w)

/-- To alter a formula is to make a step at its place and nowhere else. -/
theorem outcome_alter {a : BenchStep} (ha : b.addressed a = (b.place? name).map (·, s)) :
    b.Outcome a (b.alter name s) := by
  rw [place?] at ha
  cases hfind : b.find name with
  | error e =>
    rw [hfind] at ha
    rw [alter, hfind]
    exact .same ha
  | ok r =>
    rw [hfind] at ha
    rw [alter_of_find hfind]
    exact .change ha (find_eq_ok_iff.1 hfind).2.2

/-- If a formula cannot be put on the bench, the bench stays as it is. -/
theorem outcome_put {a : BenchStep} {x : Except BenchError (Bench × AnyFormula)}
    (ha : b.addressed a = none)
    (hx : ∀ {c : Bench} {f : AnyFormula}, x = .ok (c, f) → b.put name f = .ok c) :
    b.Outcome a (b.orStay (x.map (·.1))) := by
  cases x with
  | error e => exact .same ha
  | ok r =>
    obtain ⟨hkey, hr⟩ := put_eq_ok_iff.1 (hx rfl)
    show b.Outcome a r.1
    rw [hr]
    exact .put ha hkey

/-- So is every step, unless it changes no formula or places a new one. -/
theorem outcome_step (b : Bench) (a : BenchStep) : b.Outcome a (b.step a) := by
  cases a with
  | new name clauses top => exact outcome_put rfl put_of_new
  | newVariables name n =>
    rw [step_newVariables]
    exact outcome_alter rfl
  | newLabels name n =>
    rw [step_newLabels]
    exact outcome_alter rfl
  | add name lits =>
    cases hitems : lits.items with
    | error e =>
      rw [step_add_of_error hitems]
      refine .same ?_
      rw [addressed, hitems]
      rfl
    | ok items =>
      rw [step_add hitems]
      apply outcome_alter
      rw [addressed, hitems]
      rfl
  | copy name target => exact outcome_put rfl put_of_copy
  | openSession name formula solver =>
    rw [step]
    cases hopen : b.openSession name formula solver with
    | error e => exact .same rfl
    | ok c =>
      obtain ⟨hkey, w, hplace, rfl⟩ := openSession_eq_ok hopen
      exact .keep rfl hkey (.inl ⟨formula, hplace⟩)
  | sessionAdd name lits =>
    rcases b.step_sessionAdd_cases name lits with ⟨ha, hstep⟩ | ⟨w, s, f, ha, hplace, hf, hstep⟩ <;>
      rw [hstep]
    · exact .same ha
    · exact .changeIn ha hplace hf
  | solve name =>
    rcases b.step_solve_cases name with hstep | ⟨w, hplace, hstep⟩ <;> rw [hstep]
    · exact .same rfl
    · exact .keep rfl (sessionPlace?_eq_some_iff.1 hplace).1 (.inr hplace)
  | close name =>
    rcases b.step_close_cases name with hstep | ⟨w, hplace, hstep⟩ <;> rw [hstep]
    · exact .same rfl
    · exact .keep rfl (sessionPlace?_eq_some_iff.1 hplace).1 (.inr hplace)

end Bench

end Dialectic.Sat
