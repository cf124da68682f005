import Dialectic.Proofs.Places

/-!
# Copies

The formula at a place is, after some steps on the bench, what those of them make of it that are
addressed to it (`Bench.getElem?_run`), and steps that are taken through a name and a session are
addressed to where these lead (`Bench.LeadTo`). A copy is put at a place of its own, to which
nothing led before. Main statement: it is the same as the original, both go on in the same way, and
neither is changed by what is done with the other, by name or in a session (`Bench.copy_exact`).
-/

namespace Dialectic.Sat.Bench

variable {b c : Bench} {a : BenchStep} {name target session : Json} {place q : Nat} {f : AnyFormula}
  {s : FormulaStep} {w : Work}

/-! ## Which formula is changed -/

/-- A step is one of the steps at the place that it leads to. -/
theorem stepsAt_self (ha : b.addressed a = some (place, s)) : b.stepsAt place a = [s] := by
  simp [stepsAt, ha]

/-- It is no step at any other place. -/
theorem stepsAt_eq_nil (ha : ∀ t, b.addressed a = some t → t.1 ≠ q) : b.stepsAt q a = [] := by
  cases h : b.addressed a with
  | none => simp [stepsAt, h]
  | some t => simp [stepsAt, h, ha t h]

/-- No formula is ever taken away. -/
theorem Outcome.length_le (h : b.Outcome a c) : b.formulas.length ≤ c.formulas.length := by
  cases h with
  | same ha => exact Nat.le_refl b.formulas.length
  | put ha hkey => simp
  | keep ha hkey hplace => exact Nat.le_refl b.formulas.length
  | change ha hf => simp
  | changeIn ha hplace hf => simp

/-- Where a formula is written that a step has changed, it is as the step makes it, and the others
are as they were. -/
theorem getElem?_set_step (ha : b.addressed a = some (place, s))
    (hf : ∀ g, b.formulas[place]? = some g → f = g) (q : Nat) :
    (b.set place (f.step s)).formulas[q]? = (b.formulas[q]?).map (·.run (b.stepsAt q a)) := by
  rw [set]
  by_cases hq : place = q
  · subst hq
    rw [stepsAt_self ha, List.getElem?_set_self']
    cases hg : b.formulas[place]? with
    | none => rfl
    | some g =>
      rw [hf g hg]
      rfl
  · have hother : ∀ t, b.addressed a = some t → t.1 ≠ q := by
      intro t ht
      obtain rfl := Option.some.inj (ha.symm.trans ht)
      exact hq
    rw [List.getElem?_set_ne hq, stepsAt_eq_nil hother]
    exact Option.map_id'.symm

/-- **One step.** The formula at a place is as the step makes it if the step is addressed to it, and
else as it was. -/
theorem Outcome.getElem?_eq (h : b.Outcome a c) (hq : q < b.formulas.length) :
    c.formulas[q]? = (b.formulas[q]?).map (·.run (b.stepsAt q a)) := by
  have hsame : b.addressed a = none →
      b.formulas[q]? = (b.formulas[q]?).map (·.run (b.stepsAt q a)) := by
    intro ha
    rw [stepsAt_eq_nil (by simp [ha])]
    exact Option.map_id'.symm
  cases h with
  | same ha => exact hsame ha
  | put ha hkey => exact (List.getElem?_append_left hq).trans (hsame ha)
  | keep ha hkey hplace => exact hsame ha
  | change ha hf => exact getElem?_set_step ha (fun g hg => Option.some.inj (hf.symm.trans hg)) q
  | changeIn ha hplace hf => exact getElem?_set_step ha hf q

/-- **Some steps.** The formula at a place is what those steps make of it that are addressed to
it. -/
theorem getElem?_run (hq : q < b.formulas.length) (steps : List BenchStep) :
    (b.run steps).formulas[q]? = (b.formulas[q]?).map (·.run (b.stepsOn q steps)) := by
  induction steps generalizing b with
  | nil => exact Option.map_id'.symm
  | cons a steps ih =>
    have hstep := b.outcome_step a
    calc (b.run (a :: steps)).formulas[q]?
      _ = ((b.step a).formulas[q]?).map (·.run (stepsOn q (b.step a) steps)) :=
        ih (Nat.lt_of_lt_of_le hq hstep.length_le)
      _ = ((b.formulas[q]?).map (·.run (b.stepsAt q a))).map
        (·.run (stepsOn q (b.step a) steps)) := by
        rw [hstep.getElem?_eq hq]
      _ = (b.formulas[q]?).map (·.run (b.stepsOn q (a :: steps))) := by
        simp only [Option.map_map, Function.comp_def, stepsOn, AnyFormula.run_append]

/-! ## Places at which there are formulas -/

/-- Whether all names and sessions lead to places at which there are formulas. -/
structure IsPlaced (b : Bench) : Prop where
  /-- There is a formula for every name. -/
  lt_of_name : ∀ p ∈ b.names, p.2 < b.formulas.length
  /-- There is a formula for every session. -/
  lt_of_session : ∀ p ∈ b.sessions, p.2.place < b.formulas.length

namespace IsPlaced

/-- The formula of a session is on the bench. -/
theorem lt_of_sessionPlace? (h : b.IsPlaced) (hp : b.sessionPlace? name = some place) :
    place < b.formulas.length := by
  obtain ⟨w, hw, rfl⟩ := Option.map_eq_some_iff.1 (sessionPlace?_eq_some_iff.1 hp).2
  obtain ⟨p, hmem, rfl⟩ := Json.exists_mem_of_lookup? hw
  exact h.lt_of_session p hmem

/-- A formula that is put on the bench is a place for its name. -/
theorem placed (h : b.IsPlaced) (hkey : name.isKey) (f : AnyFormula) :
    (b.placed name f).IsPlaced := by
  constructor
  · intro p hp
    rw [length_placed]
    rcases Json.mem_enter hkey hp with ⟨heq, -⟩ | hp
    · omega
    · exact Nat.lt_succ_of_lt (h.lt_of_name p hp)
  · intro p hp
    rw [length_placed]
    exact Nat.lt_succ_of_lt (h.lt_of_session p hp)

theorem setSession (h : b.IsPlaced) (hkey : session.isKey) (hw : w.place < b.formulas.length) :
    (b.setSession session w).IsPlaced := by
  refine ⟨h.lt_of_name, fun p hp => ?_⟩
  rcases Json.mem_enter hkey hp with ⟨heq, -⟩ | hp
  · rw [heq]
    exact hw
  · exact h.lt_of_session p hp

theorem set (h : b.IsPlaced) (place : Nat) (f : AnyFormula) : (b.set place f).IsPlaced := by
  constructor <;> rw [length_set]
  · exact h.lt_of_name
  · exact h.lt_of_session

/-- Whatever comes of a step, all places stay on the bench. -/
theorem outcome (h : b.IsPlaced) (hc : b.Outcome a c) : c.IsPlaced := by
  cases hc with
  | same ha => exact h
  | put ha hkey => exact h.placed hkey _
  | keep ha hkey hplace =>
    refine h.setSession hkey ?_
    rcases hplace with ⟨formula, hp⟩ | hp
    · exact (place?_eq_some_iff.1 hp).2.2
    · exact h.lt_of_sessionPlace? hp
  | change ha hf => exact h.set _ _
  | changeIn ha hplace hf =>
    refine (h.set _ _).setSession (sessionPlace?_eq_some_iff.1 hplace).1 ?_
    rw [length_set]
    exact h.lt_of_sessionPlace? hplace

/-- What is put on a bench is put at a place to which no other name leads. -/
theorem isSame_of_placed (h : b.IsPlaced) (hkey : name.isKey) {p : Json × Nat}
    (hp : p ∈ (b.placed name f).names) (heq : p.2 = b.formulas.length) : p.1.isSame name := by
  rcases Json.mem_enter hkey hp with ⟨-, hsame⟩ | hp
  · exact hsame
  · exact absurd heq (Nat.ne_of_lt (h.lt_of_name p hp))

end IsPlaced

/-- So they do after any steps. -/
theorem isPlaced_run (steps : List BenchStep) : (run {} steps).IsPlaced := by
  induction steps using List.reverseRecOn with
  | nil =>
    constructor
    · intro p hp
      cases hp
    · intro p hp
      cases hp
  | append_singleton steps a ih =>
    rw [run, List.foldl_append]
    exact ih.outcome (outcome_step _ a)

/-- What is put on the bench leaves the other formulas alone. -/
theorem getElem?_placed (hq : q < b.formulas.length) (name : Json) (f : AnyFormula) :
    (b.placed name f).formulas[q]? = b.formulas[q]? :=
  List.getElem?_append_left hq

/-- What is put on a bench is found under its name. -/
theorem find_placed (hkey : name.isKey) (b : Bench) (f : AnyFormula) :
    (b.placed name f).find name = .ok (b.formulas.length, f) :=
  find_eq_ok_iff.2 ⟨hkey, Json.lookup?_enter (Json.isSame_self hkey), List.getElem?_concat_length⟩

/-! ## Steps that are taken through a name or a session -/

/-- A formula that is changed stays where it is. -/
theorem place?_set (b : Bench) (place : Nat) (f : AnyFormula) (name : Json) :
    (b.set place f).place? name = b.place? name := by
  apply Option.ext
  intro p
  rw [place?_eq_some_iff, place?_eq_some_iff, length_set]
  rfl

/-- So do the formulas of the sessions. -/
theorem sessionPlace?_set (b : Bench) (place : Nat) (f : AnyFormula) (session : Json) :
    (b.set place f).sessionPlace? session = b.sessionPlace? session := by
  apply Option.ext
  intro p
  rw [sessionPlace?_eq_some_iff, sessionPlace?_eq_some_iff]
  rfl

/-- A step on a formula moves none of them. -/
theorem places_alter (b : Bench) (name : Json) (s : FormulaStep) (other session : Json) :
    (b.alter name s).place? other = b.place? other ∧
      (b.alter name s).sessionPlace? session = b.sessionPlace? session := by
  rw [alter]
  split
  · exact ⟨place?_set b _ _ other, sessionPlace?_set b _ _ session⟩
  · exact ⟨rfl, rfl⟩

/-- Neither does a change of a session that keeps its formula. -/
theorem places_setSession (h : b.sessionPlace? session = some w.place) (other : Json) :
    (b.setSession session w).place? other = b.place? other ∧
      (b.setSession session w).sessionPlace? session = b.sessionPlace? session :=
  ⟨rfl, (sessionPlace?_setSession (sessionPlace?_eq_some_iff.1 h).1 b w).trans h.symm⟩

/-- After a step that is taken through a name or a session these lead where they led, and all other
names as well. -/
theorem places_step (ha : a.IsThrough name session) (other : Json) :
    (b.step a).place? other = b.place? other ∧
      (b.step a).sessionPlace? session = b.sessionPlace? session := by
  cases a with
  | newVariables n k =>
    obtain rfl := ha
    rw [step_newVariables]
    exact b.places_alter n _ other session
  | newLabels n k =>
    obtain rfl := ha
    rw [step_newLabels]
    exact b.places_alter n _ other session
  | add n lits =>
    obtain rfl := ha
    cases hitems : lits.items with
    | error e =>
      rw [step_add_of_error hitems]
      exact ⟨rfl, rfl⟩
    | ok items =>
      rw [step_add hitems]
      exact b.places_alter n _ other session
  | sessionAdd n lits =>
    obtain rfl := ha
    rcases b.step_sessionAdd_cases n lits with ⟨-, hstep⟩ | ⟨w, s, f, -, hplace, -, hstep⟩ <;>
      rw [hstep]
    · exact ⟨rfl, rfl⟩
    · rw [← sessionPlace?_set b w.place (f.step s)] at hplace
      have hplaces := places_setSession hplace other
      rwa [place?_set, sessionPlace?_set b] at hplaces
  | solve n =>
    obtain rfl := ha
    rcases b.step_solve_cases n with hstep | ⟨w, hplace, hstep⟩ <;> rw [hstep]
    · exact ⟨rfl, rfl⟩
    · exact places_setSession hplace other
  | close n =>
    obtain rfl := ha
    rcases b.step_close_cases n with hstep | ⟨w, hplace, hstep⟩ <;> rw [hstep]
    · exact ⟨rfl, rfl⟩
    · exact places_setSession hplace other
  | _ => cases ha

/-- A step that is taken through a name or a session is addressed to where these lead. -/
theorem place_of_addressed (ha : a.IsThrough name session) {t : Nat × FormulaStep}
    (ht : b.addressed a = some t) :
    b.place? name = some t.1 ∨ b.sessionPlace? session = some t.1 := by
  cases a with
  | newVariables n k | newLabels n k =>
    obtain rfl := ha
    obtain ⟨p, hp, rfl⟩ := Option.map_eq_some_iff.1 ht
    exact .inl hp
  | add n lits =>
    obtain rfl := ha
    obtain ⟨items, -, ht⟩ := Option.bind_eq_some_iff.1 ht
    obtain ⟨p, hp, rfl⟩ := Option.map_eq_some_iff.1 ht
    exact .inl hp
  | sessionAdd n lits =>
    obtain rfl := ha
    obtain ⟨items, -, ht⟩ := Option.bind_eq_some_iff.1 ht
    obtain ⟨p, hp, rfl⟩ := Option.map_eq_some_iff.1 ht
    exact .inr hp
  | _ => cases ht

/-- Whether a name and a session lead to no place but one. -/
structure LeadTo (b : Bench) (name session : Json) (place : Nat) : Prop where
  /-- The name leads there, if it leads anywhere. -/
  of_name : ∀ p, b.place? name = some p → p = place
  /-- The session works there, if there is one. -/
  of_session : ∀ p, b.sessionPlace? session = some p → p = place

namespace LeadTo

/-- Steps through these names keep leading to the place. -/
theorem step (h : b.LeadTo name session place) (ha : a.IsThrough name session) :
    (b.step a).LeadTo name session place := by
  obtain ⟨hname, hsession⟩ := places_step (b := b) ha name
  constructor
  · intro p hp
    exact h.of_name p (hname.symm.trans hp)
  · intro p hp
    exact h.of_session p (hsession.symm.trans hp)

/-- Steps through these names lead to no other place. -/
theorem ne_of_addressed (h : b.LeadTo name session place) (ha : a.IsThrough name session)
    (hq : q ≠ place) (t : Nat × FormulaStep) (ht : b.addressed a = some t) : t.1 ≠ q := by
  rcases place_of_addressed ha ht with hp | hp
  · rw [h.of_name _ hp]
    exact hq.symm
  · rw [h.of_session _ hp]
    exact hq.symm

/-- Steps that are taken through them do nothing with the formulas at other places. -/
theorem stepsOn_eq_nil (h : b.LeadTo name session place) (hq : q ≠ place) {steps : List BenchStep}
    (hsteps : ∀ a ∈ steps, a.IsThrough name session) : b.stepsOn q steps = [] := by
  induction steps generalizing b with
  | nil => rfl
  | cons a steps ih =>
    rw [List.forall_mem_cons] at hsteps
    rw [stepsOn, stepsAt_eq_nil (h.ne_of_addressed hsteps.1 hq), ih (h.step hsteps.1) hsteps.2]
    rfl

/-- So they leave the formulas at other places as they are. -/
theorem getElem?_run (h : b.LeadTo name session place) (hlt : q < b.formulas.length)
    (hq : q ≠ place) {steps : List BenchStep} (hsteps : ∀ a ∈ steps, a.IsThrough name session) :
    (b.run steps).formulas[q]? = b.formulas[q]? := by
  rw [Bench.getElem?_run hlt, h.stepsOn_eq_nil hq hsteps]
  exact Option.map_id'

/-- A session that is opened on a formula leads to where the name of the formula does. -/
theorem of_openSession {solver : Json} (h : b.openSession session name solver = .ok c)
    (hplace : b.place? name = some place) :
    c.LeadTo name session place ∧ c.formulas = b.formulas := by
  obtain ⟨hkey, w, hw, rfl⟩ := openSession_eq_ok h
  refine ⟨⟨fun p hp => Option.some.inj (hp.symm.trans hplace), fun p hp => ?_⟩, rfl⟩
  rw [sessionPlace?_setSession hkey, ← hw, hplace] at hp
  exact (Option.some.inj hp).symm

end LeadTo

/-! ## Copies -/

/-- What a copy of a formula is like, on the bench on which it was put under a name: it is the same
as the original, it goes on in the same way, and it stands apart. -/
structure IsExactCopy (c : Bench) (target : Json) (f : Formula) (original : Nat) (g : Formula)
    (copied : Nat) : Prop where
  /-- The copy has the same clauses. -/
  clauses_eq : g.clauses = f.clauses
  /-- It has as many of them. -/
  size_eq : g.size = f.size
  /-- It has the same counter. -/
  top_eq : g.top = f.top
  /-- Whatever is done with both, they hand out the same variables, or fail for the same reasons. -/
  handles_eq : ∀ steps, (AnyFormula.settled g).handles steps = (AnyFormula.settled f).handles steps
  /-- Whatever is done with both, they come to the same clauses and the same counter. -/
  exists_run_eq : ∀ steps, ∃ f' g', (AnyFormula.settled f).run steps = .settled f' ∧
    (AnyFormula.settled g).run steps = .settled g' ∧ g'.clauses = f'.clauses ∧ g'.top = f'.top
  /-- The name leads to the copy. -/
  find_eq : c.find target = .ok (copied, .settled g)
  /-- No other name does. -/
  isSame_of_name : ∀ p ∈ c.names, p.2 = copied → p.1.isSame target
  /-- No session works on it yet. -/
  place_ne_of_session : ∀ p ∈ c.sessions, p.2.place ≠ copied
  /-- Whatever is done on the bench, the original is what those steps make of it that are addressed
  to it. -/
  original_eq : ∀ steps, (c.run steps).formulas[original]? =
    some ((AnyFormula.settled f).run (c.stepsOn original steps))
  /-- Whatever is done on the bench, the copy is what those steps make of it that are addressed to
  it. -/
  copied_eq : ∀ steps, (c.run steps).formulas[copied]? =
    some ((AnyFormula.settled g).run (c.stepsOn copied steps))
  /-- What is done with the copy, by its name and in a session that is opened on it, leaves the
  original as it is. -/
  original_stays : ∀ {session solver : Json} {d : Bench},
    c.openSession session target solver = .ok d →
    ∀ steps, (∀ a ∈ steps, BenchStep.IsThrough target session a) →
      (d.run steps).formulas[original]? = some (.settled f)
  /-- What is done with the original, by a name of it and in a session that works on it, leaves the
  copy as it is. -/
  copied_stays : ∀ {name session : Json}, c.LeadTo name session original →
    ∀ steps, (∀ a ∈ steps, BenchStep.IsThrough name session a) →
      (c.run steps).formulas[copied]? = some (.settled g)

/-- **Copies.** On a bench on which anything was done before, a formula that was only asked for
variables and extended by clauses over these is copied. The copy is the same as the original, and
the two go on in the same way, whatever is done with them; but neither changes by what is done with
the other. -/
theorem copy_exact {setup : List BenchStep} {f : Formula}
    (hf : (run {} setup).find name = .ok (place, .settled f)) (hgrown : f.IsGrown)
    (hkey : target.isKey) :
    ∃ c g, (run {} setup).copy name target = .ok (c, .settled g) ∧
      c.IsExactCopy target f place g (run {} setup).formulas.length := by
  have hplaced := isPlaced_run setup
  generalize run {} setup = b at hf hplaced
  have halike : f.Alike f.copy := Formula.alike_copy_iff.2 hgrown.isCovered
  have hplace := (find_eq_ok_iff.1 hf).2.2
  have hlt : place < b.formulas.length := (List.getElem?_eq_some_iff.1 hplace).1
  have hfind := find_placed hkey b (.settled f.copy)
  have hcopied := (find_eq_ok_iff.1 hfind).2.2
  have horiginal := (getElem?_placed hlt target (.settled f.copy)).trans hplace
  refine ⟨_, f.copy, copy_settled hf hkey, ?_⟩
  constructor
  case clauses_eq => rfl
  case size_eq => rfl
  case top_eq => exact halike.top_eq.symm
  case handles_eq =>
    intro steps
    exact (halike.run steps).1.symm
  case exists_run_eq =>
    intro steps
    obtain ⟨f', g', hf', hg', hafter⟩ := (halike.run steps).2
    exact ⟨f', g', hf', hg', hafter.clauses_eq.symm, hafter.top_eq.symm⟩
  case find_eq => exact hfind
  case isSame_of_name =>
    intro p hp heq
    exact hplaced.isSame_of_placed hkey hp heq
  case place_ne_of_session =>
    intro p hp
    exact Nat.ne_of_lt (hplaced.lt_of_session p hp)
  case original_eq =>
    intro steps
    rw [getElem?_run (by rw [length_placed]; omega), horiginal]
    rfl
  case copied_eq =>
    intro steps
    rw [getElem?_run (by rw [length_placed]; omega), hcopied]
    rfl
  case original_stays =>
    intro session solver d hd steps hsteps
    have htarget := place?_of_find hfind
    obtain ⟨hlead, hformulas⟩ := LeadTo.of_openSession hd htarget
    rw [hlead.getElem?_run (by rw [hformulas, length_placed]; omega) (Nat.ne_of_lt hlt) hsteps,
      hformulas]
    exact horiginal
  case copied_stays =>
    intro name session hlead steps hsteps
    rw [hlead.getElem?_run (by rw [length_placed]; omega) (Nat.ne_of_gt hlt) hsteps]
    exact hcopied

/-- A formula is asked for two variables, extended, asked for another one, and copied twice. -/
theorem copy_exact_copied_before :
    ∃ c g, (run {} [.new (.str "f") .null (.int 0), .newVariables (.str "f") (.int 2),
        .add (.str "f") (.arr [.int 1, .str "-2"]), .newVariables (.str "f") (.int 1),
        .copy (.str "f") (.str "g")]).copy (.str "f") (.str "h") = .ok (c, .settled g) ∧
      c.IsExactCopy (.str "h") ⟨[[1, -2]], 3, 3⟩ 0 g 2 := by
  have hasked : Formula.IsGrown ⟨[], 2, 2⟩ := .newVariables .empty 2 rfl
  have hextended : Formula.IsGrown ⟨[[1, -2]], 2, 2⟩ := by
    have hadd : Formula.addValues ⟨[], 2, 2⟩ [.int 1, .str "-2"] = .ok ⟨[[1, -2]], 2, 2⟩ := rfl
    refine .addClause hasked hadd fun c hc => ?_
    obtain rfl : [1, -2] = c := Except.ok.inj hc.mapM_eq
    decide
  exact copy_exact rfl (.newVariables hextended 1 rfl) rfl

end Dialectic.Sat.Bench
