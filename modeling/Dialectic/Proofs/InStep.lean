import Dialectic.Proofs.Freshness

/-!
# Sessions in step with their formulas

A clause that is added in a session goes to the formula first, which takes whatever stands for
integers, and then to the solver, which takes only what it can read as literals
(`Intake.ReadsBy`). If the formula refuses a clause nothing happens, but if the solver refuses one,
or reads another one, then the formula has a clause that the solver was not given. They never agree
again after that, since clauses are only ever added (`Session.Trails`). Main statement: in an open
session the clauses of the formula are those that the solver was given exactly if every clause so
far was refused by the formula or taken as it is by the solver (`Session.clauses_eq_given_iff`).
-/

namespace Dialectic.Sat

variable {σ : Type} {lits : List Json} {c d : Clause} {read : Int → Int}

/-! ## What a solver reads -/

/-- Whether all values are integers, or truth values, that are read as they are. -/
def AreRead (read : Int → Int) (lits : List Json) : Prop :=
  ∀ v ∈ lits, ∃ n, v.integer? = some n ∧ read n = n

/-- Whether some values are read as they are, if they stand for a clause that a formula takes. -/
def KeepsStep (read : Int → Int) (lits : List Json) : Prop :=
  (∃ c, IsClause lits c) → AreRead read lits

/-- An integer, or a truth value, stands for itself in a clause. -/
theorem toInteger_of_integer? {v : Json} {n : Int} (h : v.integer? = some n) :
    v.toInteger = .ok n := by
  cases v with
  | bool b =>
    rw [Json.integer?, Option.some_inj] at h
    rw [← h]
    rfl
  | int m =>
    rw [Json.integer?, Option.some_inj] at h
    rw [← h]
    rfl
  | _ => cases h

/-- **Reading a clause.** Some values are read as the clause that they stand for exactly if each of
them is read as it is. -/
theorem readBy?_eq_iff (hc : lits.mapM Json.toInteger = .ok c) (hzero : 0 ∉ c) :
    Intake.readBy? read lits = some c ↔ AreRead read lits := by
  induction lits generalizing c with
  | nil =>
    obtain rfl := Except.ok.inj hc
    simp [Intake.readBy?, AreRead]
  | cons v lits ih =>
    rw [List.mapM_cons] at hc
    obtain ⟨n, hn, hc⟩ := bind_eq_ok_iff.1 hc
    obtain ⟨c, hrest, hc⟩ := bind_eq_ok_iff.1 hc
    obtain rfl := Except.ok.inj hc
    simp only [List.mem_cons, not_or] at hzero
    have hrest := ih hrest hzero.2
    rw [AreRead, List.forall_mem_cons, ← AreRead, ← hrest, Intake.readBy?_cons, Intake.literalBy?]
    cases hv : v.integer? with
    | none => simp
    | some m =>
      rw [toInteger_of_integer? hv] at hn
      obtain rfl := Except.ok.inj hn
      by_cases hm : read m = 0
      · -- What is refused as zero is another number, since no literal is zero.
        simp [hm, hzero.1]
      · simp [hm, and_comm]

/-! ## What a session does -/

/-- What is done in a session. -/
inductive SessionStep where
  /-- A clause of any values is added. -/
  | add (lits : List Json)
  /-- The solver is asked for a model. -/
  | solve
  /-- The solver is given back. -/
  | close

/-- Whether a step leaves the clauses in step: all do but for clauses that the formula takes and the
solver does not read as they are. -/
def SessionStep.KeepsStep (read : Int → Int) : SessionStep → Prop
  | .add lits => Sat.KeepsStep read lits
  | _ => True

namespace Session

/-- The session after one step, whether it fails or not. -/
def step (s : Session σ) : SessionStep → Session σ
  | .add lits => (s.add lits).1
  | .solve => s.solve.1
  | .close => s.close

/-- The session after some steps. -/
def run (s : Session σ) (steps : List SessionStep) : Session σ := steps.foldl step s

variable {s : Session σ}

/-- A clause that the formula refuses changes nothing. -/
theorem add_of_not_isClause (h : ¬ ∃ c, IsClause lits c) : (s.add lits).1 = s := by
  rw [add]
  cases hadd : s.formula.addValues lits with
  | error e => rfl
  | ok f =>
    obtain ⟨c, hc, -⟩ := addValues_eq_ok_iff.1 hadd
    exact absurd ⟨c, hc⟩ h

/-- A clause that the formula takes goes to the solver next. -/
theorem add_of_isClause (h : IsClause lits c) :
    s.add lits = { s with formula := s.formula.pushAll [c] }.give lits := by
  rw [add, addValues_eq_ok_iff.2 ⟨c, h, rfl⟩]

@[simp] theorem formula_give (s : Session σ) (lits : List Json) :
    (s.give lits).1.formula = s.formula := by
  rw [give]
  split
  · split <;> rfl
  · rfl

@[simp] theorem formula_solve (s : Session σ) : s.solve.1.formula = s.formula := by
  rw [solve]
  dsimp only
  split <;> rfl

@[simp] theorem pending_solve (s : Session σ) : s.solve.1.pending = s.pending := by
  rw [solve]
  dsimp only
  split <;> rfl

@[simp] theorem intake_solve (s : Session σ) : s.solve.1.intake = s.intake := by
  rw [solve]
  dsimp only
  split <;> rfl

@[simp] theorem intake_give (s : Session σ) (lits : List Json) :
    (s.give lits).1.intake = s.intake := by
  rw [give]
  split
  · split <;> rfl
  · rfl

@[simp] theorem isOpen_give (s : Session σ) (lits : List Json) :
    (s.give lits).1.isOpen = s.isOpen := by
  rw [give]
  split
  · split <;> rfl
  · rfl

/-- The solver refuses some values, or it is given what it reads of them, after what is pending. -/
theorem give_cases (hread : s.intake.ReadsBy read) (ho : s.isOpen) (lits : List Json) :
    (Intake.readBy? read lits = none ∧ (s.give lits).1.given = s.given) ∨
      ∃ d, Intake.readBy? read lits = some d ∧
        (s.give lits).1.given = s.given ++ [s.pending ++ d] ∧ (s.give lits).1.pending = [] := by
  rw [give, if_pos ho]
  cases hlits : Intake.readBy? read lits with
  | none =>
    obtain ⟨kept, refusal, htake⟩ := hread.refused hlits
    rw [htake]
    exact .inl ⟨rfl, rfl⟩
  | some d =>
    obtain ⟨complaint, htake⟩ := hread.taken hlits
    rw [htake]
    exact .inr ⟨d, rfl, given_push { s with pending := [] } (s.pending ++ d), rfl⟩

@[simp] theorem isOpen_add (s : Session σ) (lits : List Json) :
    (s.add lits).1.isOpen = s.isOpen := by
  by_cases h : ∃ c, IsClause lits c
  · obtain ⟨c, hc⟩ := h
    rw [add_of_isClause hc, isOpen_give]
  · rw [add_of_not_isClause h]

/-- A session that is open after a step was open before. -/
theorem isOpen_of_step {a : SessionStep} (h : (s.step a).isOpen) : s.isOpen := by
  cases a with
  | add lits => rwa [step, isOpen_add] at h
  | solve =>
    rw [step, solve] at h
    dsimp only at h
    split at h
    · assumption
    · exact h
  | close => cases h

/-- A session that is open after some steps was open before. -/
theorem isOpen_of_run {steps : List SessionStep} (h : (s.run steps).isOpen) : s.isOpen := by
  induction steps generalizing s with
  | nil => exact h
  | cons a steps ih => exact isOpen_of_step (ih h)

@[simp] theorem intake_add (s : Session σ) (lits : List Json) :
    (s.add lits).1.intake = s.intake := by
  by_cases h : ∃ c, IsClause lits c
  · obtain ⟨c, hc⟩ := h
    rw [add_of_isClause hc, intake_give]
  · rw [add_of_not_isClause h]

/-! ## In step and out of step -/

/-- What always holds of an open session and its formula. -/
structure Trails (read : Int → Int) (s : Session σ) : Prop where
  /-- The solver reads its literals by the function. -/
  readsBy : s.intake.ReadsBy read
  /-- The solver has not been given more clauses than the formula has. -/
  length_le : s.given.length ≤ s.formula.clauses.length
  /-- Literals are pending only after the solver refused a clause that the formula has. -/
  pending_eq : s.formula.clauses = s.given → s.pending = []

/-- What comes of a clause that is added: nothing; or only the formula has it; or the solver is
given one as well, which is the same if nothing is pending and all values are read as they are. -/
theorem add_cases (hintake : s.intake.ReadsBy read) (ho : s.isOpen) (lits : List Json) :
    (s.add lits).1 = s ∧ KeepsStep read lits ∨
      ∃ c, (s.add lits).1.formula.clauses = s.formula.clauses ++ [c] ∧
        ((s.add lits).1.given = s.given ∧ ¬ KeepsStep read lits ∨
          ∃ d, (s.add lits).1.given = s.given ++ [s.pending ++ d] ∧
            (s.add lits).1.pending = [] ∧ (d = c ↔ KeepsStep read lits)) := by
  by_cases hclause : ∃ c, IsClause lits c
  · obtain ⟨c, hc⟩ := hclause
    have hkeeps : KeepsStep read lits ↔ Intake.readBy? read lits = some c := by
      rw [readBy?_eq_iff hc.mapM_eq hc.zero_not_mem]
      exact ⟨fun hk => hk ⟨c, hc⟩, fun hr _ => hr⟩
    refine .inr ⟨c, ?_, ?_⟩
    · rw [add_of_isClause hc, formula_give]
      rfl
    · rw [add_of_isClause hc, hkeeps]
      rcases give_cases (s := { s with formula := s.formula.pushAll [c] }) hintake ho lits with
        ⟨hread, hgiven⟩ | ⟨d, hread, hgiven, hpending⟩
      · refine .inl ⟨hgiven, ?_⟩
        rw [hread]
        simp
      · refine .inr ⟨d, hgiven, hpending, ?_⟩
        rw [hread]
        simp
  · exact .inl ⟨add_of_not_isClause hclause, fun h => absurd h hclause⟩

/-- Adding a clause keeps this, and the clauses agree afterwards exactly if they did and the clause
keeps them in step. -/
theorem Trails.add (h : s.Trails read) (ho : s.isOpen) (lits : List Json) :
    (s.add lits).1.Trails read ∧ ((s.add lits).1.formula.clauses = (s.add lits).1.given ↔
      s.formula.clauses = s.given ∧ KeepsStep read lits) := by
  have hlength := h.length_le
  have hintake : (s.add lits).1.intake.ReadsBy read := s.intake_add lits ▸ h.readsBy
  rcases s.add_cases h.readsBy ho lits with
    ⟨heq, hkeeps⟩ | ⟨c, hclauses, ⟨hgiven, hout⟩ | ⟨d, hgiven, hpending, hread⟩⟩
  · rw [heq]
    exact ⟨h, (and_iff_left hkeeps).symm⟩
  · -- The formula has more clauses than the solver was given.
    have hne : s.formula.clauses ++ [c] ≠ s.given := by
      intro heq
      have := congrArg List.length heq
      rw [List.length_append, List.length_singleton] at this
      omega
    refine ⟨⟨hintake, ?_, ?_⟩, ?_⟩ <;> rw [hclauses, hgiven]
    · rw [List.length_append]
      omega
    · intro heq
      exact absurd heq hne
    · exact iff_of_false hne fun hboth => hout hboth.2
  · refine ⟨⟨hintake, ?_, fun _ => hpending⟩, ?_⟩ <;> rw [hclauses, hgiven]
    · simpa using hlength
    · rw [← hread]
      constructor
      · intro heq
        obtain ⟨hbefore, hlast⟩ := List.append_inj' heq rfl
        rw [h.pending_eq hbefore, List.nil_append, List.singleton_inj] at hlast
        exact ⟨hbefore, hlast.symm⟩
      · rintro ⟨hbefore, rfl⟩
        rw [h.pending_eq hbefore, List.nil_append, hbefore]

/-- One step keeps this, and the clauses agree afterwards exactly if they did and the step keeps
them in step. -/
theorem Trails.step (h : s.Trails read) (a : SessionStep) (ho : (s.step a).isOpen) :
    (s.step a).Trails read ∧ ((s.step a).formula.clauses = (s.step a).given ↔
      s.formula.clauses = s.given ∧ a.KeepsStep read) := by
  cases a with
  | add lits => exact h.add (isOpen_of_step ho) lits
  | solve =>
    rw [Session.step, formula_solve, given_solve]
    refine ⟨⟨?_, ?_, ?_⟩, (and_iff_left trivial).symm⟩
    · rw [intake_solve]
      exact h.readsBy
    · rw [formula_solve, given_solve]
      exact h.length_le
    · rw [formula_solve, given_solve, pending_solve]
      exact h.pending_eq
  | close => cases ho

/-- After some steps the clauses agree exactly if they did before and every step keeps them in
step. -/
theorem Trails.run {steps : List SessionStep} (h : s.Trails read) (ho : (s.run steps).isOpen) :
    (s.run steps).formula.clauses = (s.run steps).given ↔
      s.formula.clauses = s.given ∧ ∀ a ∈ steps, a.KeepsStep read := by
  induction steps generalizing s with
  | nil => simp [Session.run]
  | cons a steps ih =>
    obtain ⟨hnext, hiff⟩ := h.step a (isOpen_of_run ho)
    have hrest := ih hnext ho
    rw [hiff] at hrest
    rw [List.forall_mem_cons, ← and_assoc]
    exact hrest

/-! ## From the beginning -/

/-- Integers are read one by one. -/
theorem eq_map_of_readBy? (h : Intake.readBy? read (c.map Json.int) = some d) : d = c.map read := by
  induction c generalizing d with
  | nil => exact (Option.some.inj h).symm
  | cons l c ih =>
    rw [List.map_cons, Intake.readBy?_cons] at h
    obtain ⟨n, hn, h⟩ := Option.bind_eq_some_iff.1 h
    obtain ⟨d, hd, rfl⟩ := Option.map_eq_some_iff.1 h
    rw [Intake.literalBy?, Json.integer?, Option.bind_some] at hn
    split at hn
    · cases hn
    · rw [List.map_cons, ← ih hd, Option.some.inj hn]

/-- A solver that takes a clause of integers when it is started reads them one by one. -/
theorem eq_map_of_clauseOf {intake : Intake} (hread : intake.ReadsBy read)
    (h : intake.clauseOf (c.map Json.int) = .ok d) : d = c.map read := by
  rw [Intake.clauseOf] at h
  cases hlits : Intake.readBy? read (c.map Json.int) with
  | none =>
    obtain ⟨kept, refusal, htake⟩ := hread.refused hlits
    rw [htake] at h
    cases h
  | some d' =>
    obtain ⟨complaint, htake⟩ := hread.taken hlits
    rw [htake] at h
    cases complaint with
    | none =>
      obtain rfl := Except.ok.inj h
      exact eq_map_of_readBy? hlits
    | some refusal => cases h

/-- The same of all clauses. -/
theorem eq_map_of_mapM_clauseOf {intake : Intake} (hread : intake.ReadsBy read)
    {cs ds : List Clause} (h : (cs.map (·.map Json.int)).mapM intake.clauseOf = .ok ds) :
    ds = cs.map (·.map read) := by
  induction cs generalizing ds with
  | nil => exact (Except.ok.inj h).symm
  | cons c cs ih =>
    rw [List.map_cons, List.mapM_cons] at h
    obtain ⟨d, hd, h⟩ := bind_eq_ok_iff.1 h
    obtain ⟨ds, hds, h⟩ := bind_eq_ok_iff.1 h
    obtain rfl := Except.ok.inj h
    rw [List.map_cons, eq_map_of_clauseOf hread hd, ih hds]

/-- A session that is opened has the formula, and the solver is given its clauses as it reads
them. -/
theorem openOn_spec {solver : Solver σ} {intake : Intake} (hread : intake.ReadsBy read)
    {f : Formula} (h : openOn solver intake f = .ok s) :
    s.intake = intake ∧ s.formula = f ∧ s.given = f.clauses.map (·.map read) ∧ s.pending = [] := by
  rw [openOn, bind_eq_ok_iff] at h
  obtain ⟨t, ht, hs⟩ := h
  rw [openReading, bind_eq_ok_iff] at ht
  obtain ⟨cs, hcs, ht⟩ := ht
  obtain rfl := Except.ok.inj ht
  obtain rfl := Except.ok.inj hs
  refine ⟨rfl, rfl, ?_, rfl⟩
  rw [← eq_map_of_mapM_clauseOf hread (mapError_eq_ok_iff.1 hcs)]
  exact given_start solver (.ofClauses cs 0)

/-- Clauses are read as they are exactly if all their literals are. -/
theorem map_read_eq_iff {cs : List Clause} :
    cs = cs.map (·.map read) ↔ ∀ c ∈ cs, ∀ l ∈ c, read l = l := by
  have hclause : ∀ c : Clause, c.map read = c ↔ ∀ l ∈ c, read l = l := by
    intro c
    rw [← List.map_inj_left, List.map_id']
  rw [eq_comm, ← forall₂_congr fun c _ => hclause c, ← List.map_inj_left, List.map_id']

/-- **The formula of a session.** The solver takes values that it can read as literals, by some
function, and refuses all others. In an open session, after any clauses that were added, whether
that failed or not, and any questions, the clauses of the formula are those that the solver was
given, in the same order, exactly if that was so when the session was opened, and every clause since
then that the formula took was such that the solver reads it as it is. -/
theorem clauses_eq_given_iff {solver : Solver σ} {intake : Intake} (hread : intake.ReadsBy read)
    {f : Formula} (hs : openOn solver intake f = .ok s) {steps : List SessionStep}
    (ho : (s.run steps).isOpen) :
    (s.run steps).formula.clauses = (s.run steps).given ↔
      (∀ c ∈ f.clauses, ∀ l ∈ c, read l = l) ∧ ∀ a ∈ steps, a.KeepsStep read := by
  obtain ⟨hintake, hformula, hgiven, hpending⟩ := openOn_spec hread hs
  have hlength : s.given.length = s.formula.clauses.length := by
    rw [hgiven, hformula, List.length_map]
  have htrails : s.Trails read :=
    ⟨hintake ▸ hread, Nat.le_of_eq hlength, fun _ => hpending⟩
  rw [htrails.run ho, hformula, hgiven, map_read_eq_iff]

/-- Clauses that both take, a question, and clauses that the formula refuses. -/
def refusedSteps : List SessionStep :=
  [.add [.int (-1), .bool true], .solve, .add [.null], .add [], .add [.int 3, .int 0]]

/-- A session on one clause, in which a solver reads literals as numbers of thirty-two bits. -/
theorem clauses_eq_given_iff_refused :
    ((start .learning (.ofClauses [[1, -2]] 0)).run refusedSteps).formula.clauses =
      ((start .learning (.ofClauses [[1, -2]] 0)).run refusedSteps).given ↔
      (∀ c ∈ [[1, -2]], ∀ l ∈ c, Kind.narrow l = l) ∧
        ∀ a ∈ refusedSteps, a.KeepsStep Kind.narrow := by
  have hopen : openOn .learning .whole (.ofClauses [[1, -2]] 0) =
      .ok (start .learning (.ofClauses [[1, -2]] 0)) := rfl
  exact clauses_eq_given_iff (Kind.readsBy_narrow {}) hopen rfl

/-- A text that writes a number is a literal of the formula, but the solver refuses it. -/
theorem clauses_ne_given_text :
    ∃ intake s, Intake.named (.str Intake.defaultName) = .ok intake ∧
      openOn .learning intake (.ofClauses [] 0) = .ok s ∧
      (s.add [.str "1"]).2 = .error (.refusal .notInteger) ∧
      (s.run [.add [.str "1"]]).isOpen ∧
      (s.run [.add [.str "1"]]).formula.clauses = [[1]] ∧
      (s.run [.add [.str "1"]]).given = [] := by
  have hsome : (Intake.named (.str Intake.defaultName)).toOption.isSome := by decide +kernel
  cases hnamed : Intake.named (.str Intake.defaultName) with
  | error e => simp [hnamed, Except.toOption] at hsome
  | ok intake =>
    obtain ⟨k, rfl⟩ := Intake.exists_kind_of_named hnamed
    exact ⟨_, _, rfl, rfl, rfl, rfl, rfl, rfl⟩

end Session

end Dialectic.Sat
