import Dialectic.Sat.Clause

/-!
# What follows from clauses

A clause follows from a list of clauses if every total model of the clauses makes it true. Main
statements: resolving two clauses that follow gives one that follows (`Entails.resolve`), and
clauses from which the clause without literals follows have no total model
(`Entails.not_satisfies`).
-/

namespace Dialectic.Sat

/-- Every total model of the clauses makes the clause true. -/
def Entails (cs : List Clause) (c : Clause) : Prop :=
  ∀ k m, IsTotal k m → satisfies m cs → ∃ l ∈ c, l ∈ m

namespace Entails

variable {cs ds : List Clause} {c d : Clause}

/-- A clause of the list follows. -/
theorem of_mem (h : c ∈ cs) : Entails cs c := fun _ _ _ hs => satisfies_iff.1 hs c h

/-- What follows from some clauses follows from more. -/
theorem mono (h : Entails cs c) (hs : ∀ x ∈ cs, x ∈ ds) : Entails ds c := fun k m hm hd =>
  h k m hm (satisfies_iff.2 fun x hx => satisfies_iff.1 hd x (hs x hx))

/-- If the clause without literals follows, there is no total model. -/
theorem not_satisfies (h : Entails cs []) {k : Nat} {m : Model} (hm : IsTotal k m) :
    ¬ satisfies m cs := by
  intro hs
  obtain ⟨l, hl, _⟩ := h k m hm hs
  simp at hl

/-- Of two clauses that follow, one with a literal and one with its negation, all other literals
together follow. -/
theorem resolve {l : Int} {e : Clause} (hc : Entails cs c) (hd : Entails cs d)
    (hce : ∀ x ∈ c, x ≠ -l → x ∈ e) (hde : ∀ x ∈ d, x ≠ l → x ∈ e) : Entails cs e := by
  intro k m hm hs
  obtain ⟨x, hx, hxm⟩ := hc k m hm hs
  by_cases hxl : x = -l
  · obtain ⟨y, hy, hym⟩ := hd k m hm hs
    refine ⟨y, hde y hy ?_, hym⟩
    rintro rfl
    exact hm.neg_not_mem hym (hxl ▸ hxm)
  · exact ⟨x, hce x hx hxl, hxm⟩

/-- Literals that are false in every total model can be left out. -/
theorem drop (hc : Entails cs c)
    (h : ∀ x ∈ c, x ∈ d ∨ ∀ k m, IsTotal k m → satisfies m cs → x ∉ m) : Entails cs d := by
  intro k m hm hs
  obtain ⟨x, hx, hxm⟩ := hc k m hm hs
  exact ⟨x, (h x hx).resolve_right fun hn => hn k m hm hs hxm, hxm⟩

end Entails

end Dialectic.Sat
