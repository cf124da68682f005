import Dialectic.Sat.Knowledge
import Dialectic.Sat.Search

/-!
# Learning from refuted clauses

A learner takes clauses one after the other and looks for a total model of them. It decides one
variable after the other and infers what follows; from a clause that is refuted it learns a new one
and takes back decisions. After a while it starts anew with the better part of what it has learned.
It keeps its trail from one question to the next. Main statements: a model that it finds is one
(`satisfies_of_solve`), and if it finds none there is none (`not_satisfies_of_solve`).
-/

namespace Dialectic.Sat

/-- What is known of the clauses, and where the search for a model stands. -/
structure Learner where
  /-- What is known of the clauses. -/
  knowledge : Knowledge := {}
  /-- Where the search stands. -/
  search : Search := {}

namespace Learner

/-- The clauses taken. -/
def given (L : Learner) : List Clause := L.knowledge.given.toList

/-! ## Clauses -/

/-- Learns a clause that follows. -/
def learn (L : Learner) (c : Clause) (h : Entails L.given c) (grade : Nat) : Learner :=
  ⟨L.knowledge.push c h, L.search.attach c grade⟩

/-- Learns that a literal holds, which it does already without any decision. -/
def settle (L : Learner) (l : Int) (h : Entails L.given [l]) : Learner :=
  ⟨L.knowledge.push [l] h, L.search.settle l⟩

/-- Of two clauses the second if it has only literals of the first, else the first. -/
def within (c d : Clause) : Clause := if d.all c.contains then d else c

/-- What a clause that is refuted by the trail goes back to; any other clause as it is. -/
def digest (L : Learner) (c : Clause) : Clause :=
  if L.search.trail.refutes c then within c (L.knowledge.decisions L.search.trail c) else c

/-- Taking in a clause adds no literal to it. -/
theorem mem_of_mem_digest {L : Learner} {c : Clause} : ∀ l ∈ L.digest c, l ∈ c := by
  unfold digest within
  split
  · split
    · rename_i h
      simpa using h
    · simp
  · simp

/-- What is taken in of a clause follows from what is given. -/
theorem entails_digest {L : Learner} {c : Clause} :
    Entails (L.knowledge.given.push c).toList (L.digest c) := by
  have hc : Entails (L.knowledge.given.push c).toList c := .of_mem (by simp)
  unfold digest within
  split
  · split
    · refine Knowledge.entails_decisions (fun d hd => ?_) hc
      exact (L.knowledge.entailed d hd).mono fun x hx => by simp [hx]
    · exact hc
  · exact hc

/-- Takes a clause. -/
def add (L : Learner) (c : Clause) : Learner :=
  let d := L.digest c
  ⟨L.knowledge.give c d entails_digest mem_of_mem_digest, (L.search.meet c).attach d 0⟩

@[simp] theorem given_add (L : Learner) (c : Clause) : (L.add c).given = L.given ++ [c] := by
  simp [add, given]

/-! ## Steps -/

/-- What the search has come to. -/
inductive Outcome where
  /-- All variables are decided. -/
  | decided
  /-- The clauses are refuted without any decision. -/
  | refuted
  /-- Nothing yet. -/
  | open
  deriving DecidableEq, Repr

/-- Learns, for literals that hold without any decision, clauses with nothing else. -/
def settleAll (L : Learner) : List Int → Learner
  | [] => L
  | l :: newer =>
    match L.search.trail.reason? l with
    | none => L.settleAll newer
    | some i =>
      if h : i < L.knowledge.clauses.size ∧ (L.knowledge.clause i).size ≠ 1 ∧
          ∀ x ∈ L.knowledge.strip L.search.trail (L.knowledge.clause i).toList, x ∈ [l] then
        have hl : Entails L.given [l] := (Knowledge.entails_strip L.knowledge.entailed
          (L.knowledge.entailed _ (L.knowledge.clause_mem h.1))).drop fun x hx =>
            Or.inl (h.2.2 x hx)
        (L.settle l hl).settleAll newer
      else L.settleAll newer

/-- Learns clauses with nothing else for all literals that hold without any decision. -/
def settleNew (L : Learner) : Learner :=
  let n := L.search.trail.literals.length
  let new := (L.search.trail.literals.take (n - L.search.settled)).reverse
  let L := { L with search := { L.search with settled := n } }
  L.settleAll new

/-- Learns from a clause that is refuted without any decision that all clauses together are. -/
def conclude (L : Learner) (i : Nat) : Learner :=
  let L := L.settleNew
  if h : i < L.knowledge.clauses.size then
    let c := L.knowledge.strip L.search.trail (L.knowledge.clause i).toList
    { L with
      knowledge := L.knowledge.push c (Knowledge.entails_strip L.knowledge.entailed
        (L.knowledge.entailed _ (L.knowledge.clause_mem h)))
      search := { L.search with
        toInference := L.search.toInference.push c
        grades := L.search.grades.push 1
        clash := some i } }
  else L

/-- Learns from a refuted clause. -/
def study (L : Learner) (i : Nat) : Learner :=
  if h : i < L.knowledge.clauses.size then
    let c := (L.knowledge.clause i).toList
    let lesson := L.knowledge.lesson L.search.trail c
    have hl : Entails L.given lesson.1 := Knowledge.entails_lesson L.knowledge.entailed
      (L.knowledge.entailed _ (L.knowledge.clause_mem h))
    let grade := L.search.spread lesson.1 + 1
    let s := (L.search.reward lesson.1).reward lesson.2
    let s := { s with refutations := s.refutations + 1 }
    learn { L with search := s } lesson.1 hl grade
  else L

/-- Forgets the worse part of what was learned. -/
def forget (L : Learner) : Learner :=
  let s := L.search
  let p := s.isKept s.middleGrade
  let K := L.knowledge.keep p
  let grades := (s.grades.toList.zipIdx.filter fun g => p g.2).map (·.1)
  ⟨K, (K.clauses.toList.zip grades).foldl (fun s c => s.attach c.1.toList c.2) s.renewed⟩

/-- Takes back all decisions, and forgets if too much has been learned. -/
def startAnew (L : Learner) : Learner :=
  let s := L.search.backjump 0
  let s := { s with refutations := 0, patience := s.patience + s.patience / 10 }
  let L := { L with search := s }
  if s.capacity + L.knowledge.roots.size < L.knowledge.clauses.size then L.forget else L

/-- Starts anew if there have been enough refutations, else decides a variable. -/
def proceed (L : Learner) : Learner × Outcome :=
  if L.search.patience ≤ L.search.refutations then (L.startAnew, .open)
  else
    match L.search.next with
    | 0 => (L, .decided)
    | v =>
      let ⟨K, s⟩ := L
      (⟨K, s.guess v⟩, .open)

/-- Infers what follows, and learns or decides. -/
def step (L : Learner) : Learner × Outcome :=
  match L.search.clash with
  | some i => (L.conclude i, .refuted)
  | none =>
    let ⟨K, s⟩ := L
    match s.propagate with
    | (s, some i) =>
      if s.trail.level = 0 then (conclude ⟨K, s⟩ i, .refuted) else (study ⟨K, s⟩ i, .open)
    | (s, none) => if s.trail.level = 0 then (settleNew ⟨K, s⟩).proceed else proceed ⟨K, s⟩

/-- At most a number of steps. -/
def run : Nat → Learner → Learner × Outcome
  | 0, L => (L, .open)
  | n + 1, L =>
    match L.step with
    | (L, .open) => run n L
    | r => r

/-! ### What steps keep -/

theorem given_settleAll (L : Learner) (ls : List Int) : (L.settleAll ls).given = L.given := by
  induction ls generalizing L with
  | nil => rfl
  | cons l newer ih =>
    rw [settleAll]
    split
    · exact ih L
    · split
      · exact ih _
      · exact ih L

theorem given_settleNew (L : Learner) : L.settleNew.given = L.given := given_settleAll _ _

theorem given_conclude (L : Learner) (i : Nat) : (L.conclude i).given = L.given := by
  have := L.given_settleNew
  unfold conclude
  dsimp only
  split <;> simpa [given] using this

theorem given_study (L : Learner) (i : Nat) : (L.study i).given = L.given := by
  unfold study
  split <;> rfl

theorem given_startAnew (L : Learner) : L.startAnew.given = L.given := by
  unfold startAnew
  dsimp only
  split <;> rfl

theorem given_proceed (L : Learner) : L.proceed.1.given = L.given := by
  unfold proceed
  split
  · exact L.given_startAnew
  · split <;> rfl

/-- No step changes what is given. -/
theorem given_step (L : Learner) : L.step.1.given = L.given := by
  unfold step
  split
  · exact given_conclude _ _
  · dsimp only
    split
    · split
      · exact given_conclude _ _
      · exact given_study _ _
    · split
      · rw [given_proceed, given_settleNew]
        rfl
      · exact given_proceed _

/-- A run takes no clause. -/
theorem given_run (n : Nat) (L : Learner) : (run n L).1.given = L.given := by
  induction n generalizing L with
  | zero => rfl
  | succ n ih =>
    have h := L.given_step
    rw [run]
    split
    · rename_i M hM
      rw [ih, ← h, hM]
    · exact h

/-! ## Answers -/

/-- Begins to look for a model. -/
def begin (L : Learner) : Learner := { L with search := L.search.begin }

/-- A number of steps that no search takes in practice. -/
def stepLimit : Nat := 1000000000000

/-- A model of the clauses taken, if there is one. Should the search come to nothing, all
assignments are tried. -/
def solve (L : Learner) : Option Model × Learner :=
  let (M, outcome) := run stepLimit L.begin
  let a := M.search.trail.valuation
  if outcome = .decided ∧ a.hitsAll M.knowledge.roots then (some (a.toModel M.knowledge.top), M)
  else if outcome = .refuted ∧ M.knowledge.clauses.back? = some #[] then (none, M)
  else ((models M.given).head?, M)

/-- Neither does solving. -/
@[simp] theorem given_solve (L : Learner) : L.solve.2.given = L.given := by
  have h : (run stepLimit L.begin).1.given = L.given := given_run stepLimit L.begin
  unfold solve
  dsimp only
  split
  · exact h
  · split <;> exact h

/-- A model that is found is total and makes all clauses true. -/
theorem mem_models_of_solve {L : Learner} {m : Model} (h : L.solve.1 = some m) :
    m ∈ models L.given := by
  have hg : (run stepLimit L.begin).1.given = L.given := given_run stepLimit L.begin
  unfold solve at h
  dsimp only at h
  rw [← hg]
  split at h
  · rename_i ha
    obtain rfl : _ = m := Option.some.inj h
    rw [mem_models, Knowledge.top_eq]
    exact ⟨Valuation.isTotal_toModel _ _,
      Valuation.satisfies_toModel (Knowledge.hits_of_roots ha.2)⟩
  · split at h
    · simp at h
    · exact List.mem_of_head? h

/-- If no model is found, there is none. -/
theorem models_eq_nil_of_solve {L : Learner} (h : L.solve.1 = none) : models L.given = [] := by
  have hg : (run stepLimit L.begin).1.given = L.given := given_run stepLimit L.begin
  unfold solve at h
  dsimp only at h
  rw [← hg]
  split at h
  · simp at h
  · split at h
    · rename_i hr
      rw [List.eq_nil_iff_forall_not_mem]
      intro m hm
      rw [mem_models] at hm
      have he := (run stepLimit L.begin).1.knowledge.entailed #[] (Array.mem_of_back? hr.2)
      exact Entails.not_satisfies he hm.1 hm.2
    · exact List.head?_eq_none_iff.1 h

end Learner

end Dialectic.Sat
