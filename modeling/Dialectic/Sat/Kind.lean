import Dialectic.Sat.Intake

/-!
# Kinds of solvers

Solvers are asked for by name. All kinds read a literal as a number of thirty-two bits with a sign
and refuse what is no integer, and zero (`Kind.readsBy_narrow`). They differ in what they do with
the literals before one that is refused: some take literals one by one, so that these begin the
next clause.
-/

namespace Dialectic.Sat

/-- A kind of solvers. -/
structure Kind where
  /-- The names of the solvers of this kind, in lower case. -/
  names : List String := []
  /-- What the operation that takes a clause is called. -/
  operation : String := ""
  /-- Whether literals are taken one by one. -/
  isStreaming : Bool := false
  deriving DecidableEq, Repr

namespace Kind

/-! ## Literals -/

/-- Whether an integer has more than sixty-four bits. -/
def isWide (n : Int) : Bool := n < -9223372036854775808 || 9223372036854775807 < n

/-- An integer as a number of thirty-two bits with a sign; the higher bits are lost. An integer with
more than sixty-four bits becomes minus one. -/
def narrow (n : Int) : Int := if isWide n then -1 else n.bmod 4294967296

/-- A literal of at most thirty-one bits stays as it is. -/
theorem narrow_of_natAbs_lt {n : Int} (h : n.natAbs < 2147483648) : narrow n = n := by
  have hw : isWide n = false := by
    simp only [isWide, Bool.or_eq_false_iff, decide_eq_false_iff_not]
    omega
  rw [narrow, hw, if_neg (by simp), Int.bmod_eq_of_le (by omega) (by omega)]

/-- The literals up to the first value that is refused, and why that is. -/
def literals : List Json → Clause × Option Intake.Refusal
  | [] => ([], none)
  | v :: rest =>
    match v.integer? with
    | none => ([], some .notInteger)
    | some n =>
      if narrow n = 0 then ([], some .zero)
      else
        let (c, refusal) := literals rest
        (narrow n :: c, refusal)

/-- Whether one of some values is an integer with more than sixty-four bits. -/
def hasWide (vs : List Json) : Bool := vs.any fun v => v.integer?.any isWide

/-- What the solvers of a kind make of some values. -/
def take (k : Kind) (vs : List Json) : Taking :=
  match literals vs with
  | (c, some refusal) => .refused (if k.isStreaming then c else []) refusal
  | (c, none) => .taken c (if hasWide vs then some (.tooWide k.operation) else none)

/-- How the solvers of a kind take clauses. -/
def intake (k : Kind) : Intake := ⟨k.take⟩

/-- Values are refused exactly if one of them cannot be read. -/
theorem literals_cases (vs : List Json) :
    (∃ c, literals vs = (c, none) ∧ Intake.readBy? narrow vs = some c) ∨
      ∃ c refusal, literals vs = (c, some refusal) ∧ Intake.readBy? narrow vs = none := by
  induction vs with
  | nil => exact .inl ⟨[], rfl, rfl⟩
  | cons v vs ih =>
    rw [literals, Intake.readBy?_cons, Intake.literalBy?]
    cases v.integer? with
    | none => exact .inr ⟨[], _, rfl, rfl⟩
    | some n =>
      by_cases hzero : narrow n = 0
      · exact .inr ⟨[], .zero, by simp [hzero], by simp [hzero]⟩
      · obtain ⟨c, hc, hread⟩ | ⟨c, refusal, hc, hread⟩ := ih
        · exact .inl ⟨narrow n :: c, by simp [hzero, hc], by simp [hzero, hread]⟩
        · exact .inr ⟨narrow n :: c, refusal, by simp [hzero, hc], by simp [hzero, hread]⟩

/-- The solvers of every kind read their literals as numbers of thirty-two bits. -/
theorem readsBy_narrow (k : Kind) : k.intake.ReadsBy narrow := by
  refine ⟨fun {vs c} hread => ?_, fun {vs} hread => ?_⟩
  · obtain ⟨d, hd, hread'⟩ | ⟨d, refusal, -, hread'⟩ := literals_cases vs
    · obtain rfl := Option.some.inj (hread.symm.trans hread')
      refine ⟨if hasWide vs then some (.tooWide k.operation) else none, ?_⟩
      simp only [intake, take, hd]
    · cases hread.symm.trans hread'
  · obtain ⟨d, -, hread'⟩ | ⟨d, refusal, hd, -⟩ := literals_cases vs
    · cases hread.symm.trans hread'
    · refine ⟨if k.isStreaming then d else [], refusal, ?_⟩
      simp only [intake, take, hd]

/-- Literals of at most thirty-one bits are read as they are. -/
theorem literals_eq {c : Clause} (h : ∀ l ∈ c, Intake.IsFit l) :
    literals (c.map Json.int) = (c, none) := by
  induction c with
  | nil => rfl
  | cons l c ih =>
    rw [List.forall_mem_cons] at h
    simp only [List.map_cons, literals, Json.integer?, narrow_of_natAbs_lt h.1.2, if_neg h.1.1,
      ih h.2]

/-- None of them has more than sixty-four bits. -/
theorem hasWide_eq_false {c : Clause} (h : ∀ l ∈ c, Intake.IsFit l) :
    hasWide (c.map Json.int) = false := by
  simp only [hasWide, List.any_eq_false, List.mem_map]
  rintro _ ⟨l, hl, rfl⟩
  have hsmall := (h l hl).2
  simp only [Json.integer?, Option.any_some, isWide, Bool.or_eq_true, decide_eq_true_eq]
  omega

/-- They take literals of at most thirty-one bits as they are. -/
theorem takesFit (k : Kind) : k.intake.TakesFit := by
  intro c h
  simp [intake, take, literals_eq h, hasWide_eq_false h]

/-! ## Names -/

/-- All kinds of solvers. -/
def all : List Kind :=
  [⟨["cd", "cd103", "cdl", "cdl103", "cadical103"], "cadical103_add_cl", true⟩,
   ⟨["cd15", "cd153", "cdl15", "cdl153", "cadical153"], "cadical153_add_cl", true⟩,
   ⟨["cd19", "cd195", "cdl19", "cdl195", "cadical195"], "cadical195_add_cl", true⟩,
   ⟨["cd30", "cd300", "cdl30", "cdl300", "cadical300"], "cadical300_add_cl", true⟩,
   ⟨["ergo"], "ergo_add_cl", true⟩,
   ⟨["gc3", "gc30", "gluecard3", "gluecard30"], "gluecard3_add_cl", false⟩,
   ⟨["gc4", "gc41", "gluecard4", "gluecard41"], "gluecard41_add_cl", false⟩,
   ⟨["g3", "g30", "glucose3", "glucose30"], "glucose3_add_cl", false⟩,
   ⟨["g4", "g41", "glucose4", "glucose41"], "glucose41_add_cl", false⟩,
   ⟨["g42", "g421", "glucose42", "glucose421"], "glucose421_add_cl", false⟩,
   ⟨["kis", "kis4", "kis40", "kis404", "kissat", "kissat4", "kissat40", "kissat404"],
     "kissat404_add_cl", true⟩,
   ⟨["lgl", "lingeling"], "lingeling_add_cl", true⟩,
   ⟨["mcb", "chrono", "chronobt", "maplechrono"], "maplechrono_add_cl", false⟩,
   ⟨["mcm", "maplecm"], "maplecm_add_cl", false⟩,
   ⟨["mpl", "maple", "maplesat"], "maplesat_add_cl", false⟩,
   ⟨["mg3", "mgs3", "mergesat3", "mergesat30"], "mergesat3_add_cl", false⟩,
   ⟨["mc", "mcard", "minicard"], "minicard_add_cl", false⟩,
   ⟨["m22", "msat22", "minisat22"], "minisat22_add_cl", false⟩,
   ⟨["mep", "msat-ep", "minisat-ep", "minisatep"], "minisatep_add_cl", false⟩,
   ⟨["mgh", "msat-gh", "minisat-gh"], "minisatgh_add_cl", false⟩]

/-- The names of a kind of solvers that cannot be used here, in lower case, and the package that it
needs. -/
def unavailable : List String × String :=
  (["cms", "cms5", "crypto", "crypto5", "cryptominisat", "cryptominisat5"], "pycryptosat")

end Kind

namespace Intake

/-- Why there is no solver. -/
inductive NameError where
  /-- No solver has the name. -/
  | unknown (name : Text)
  /-- The solver cannot be used without a package. -/
  | unavailable (package : String)
  /-- A value of a kind that is no name. -/
  | notName (kind : String)
  deriving DecidableEq, Repr

/-- What the error says. -/
def NameError.message : NameError → Text
  | .unknown name => name
  | .unavailable package =>
    "Package '" ++ package ++ "' is unavailable. Check your installation."
  | .notName kind => "'" ++ kind ++ "' object has no attribute 'lower'"

/-- How the solver of a name, in any letter case, takes clauses. -/
def named : Json → Except NameError Intake
  | .str name =>
    let lower := (name.toString?.map String.toLower).getD ""
    match Kind.all.find? fun k => k.names.contains lower with
    | some k => .ok k.intake
    | none =>
      if Kind.unavailable.1.contains lower then .error (.unavailable Kind.unavailable.2)
      else .error (.unknown name)
  | v => .error (.notName v.kind)

/-- A solver that has a name is of some kind. -/
theorem exists_kind_of_named {v : Json} {i : Intake} (h : named v = .ok i) :
    ∃ k : Kind, i = k.intake := by
  unfold named at h
  split at h
  · dsimp only at h
    split at h
    · exact ⟨_, (Except.ok.inj h).symm⟩
    · split at h <;> cases h
  · cases h

/-- The name of the solver that is asked for when none is given. -/
def defaultName : String := "glucose4"

/-- How a solver takes clauses that takes them as a whole. -/
def whole : Intake := ({} : Kind).intake

end Intake

end Dialectic.Sat
