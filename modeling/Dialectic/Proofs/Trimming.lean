import Dialectic.Text.Blank
import Dialectic.Text.Line
import Mathlib.Data.List.Induction
import Mathlib.Data.List.TakeWhile

/-!
# Trimming a text and its pieces

A text may be trimmed as a whole before it is cut into pieces. Then the pieces at its ends lose
members of the trimmed class, and some pieces may be missing. If every piece is read alike with and
without such members at its ends, and nothing is read of an empty one, then the same is read of all
(`filterMap_pieces_trimBy`).
-/

namespace Dialectic

namespace Text

/-! ## Trimming -/

variable {α β : Type} {p : α → Bool}

/-- A list is its trimming with members of the class at its ends. -/
theorem exists_trimBy_eq (p : α → Bool) (cs : List α) :
    ∃ a b, (∀ c ∈ a, p c) ∧ (∀ c ∈ b, p c) ∧ cs = a ++ trimBy p cs ++ b := by
  refine ⟨cs.takeWhile p, ((cs.dropWhile p).reverse.takeWhile p).reverse, ?_, ?_, ?_⟩
  · exact fun c hc => List.mem_takeWhile_imp hc
  · exact fun c hc => List.mem_takeWhile_imp (List.mem_reverse.1 hc)
  · have hback := congrArg List.reverse
      (List.takeWhile_append_dropWhile (p := p) (l := (cs.dropWhile p).reverse))
    rw [List.reverse_append, List.reverse_reverse] at hback
    rw [trimBy, List.append_assoc, hback, List.takeWhile_append_dropWhile]

/-- Members of the class at the ends are trimmed off. -/
theorem trimBy_append {a m b : List α} (ha : ∀ c ∈ a, p c) (hb : ∀ c ∈ b, p c) :
    trimBy p (a ++ m ++ b) = trimBy p m := by
  have hall : ∀ {cs : List α}, (∀ c ∈ cs, p c) → cs.dropWhile p = [] :=
    fun h => List.dropWhile_eq_nil_iff.2 h
  rw [trimBy, trimBy, List.append_assoc, List.dropWhile_append_of_pos ha, List.dropWhile_append]
  split
  · rename_i hempty
    rw [hall hb, List.isEmpty_iff.1 hempty]
  · rw [List.reverse_append, List.dropWhile_append_of_pos fun c hc => hb c (List.mem_reverse.1 hc)]

/-! ## Steady pieces -/

/-- Whether what is read of a list does not depend on members of the class at its ends. -/
def IsSteady (p : α → Bool) (f : List α → Option β) (cs : List α) : Prop :=
  ∀ a m b, cs = a ++ m ++ b → (∀ c ∈ a, p c) → (∀ c ∈ b, p c) → f m = f cs

variable {f : List α → Option β}

/-- Blanks around a text may be left off. -/
theorem IsSteady.of_append {a m b : List α} (h : IsSteady p f (a ++ m ++ b)) (ha : ∀ c ∈ a, p c)
    (hb : ∀ c ∈ b, p c) : IsSteady p f m := by
  rintro a' m' b' rfl ha' hb'
  have hwhole := h a _ b rfl ha hb
  have hpart := h (a ++ a') m' (b' ++ b) (by simp) (List.forall_mem_append.2 ⟨ha, ha'⟩)
    (List.forall_mem_append.2 ⟨hb', hb⟩)
  rw [hpart, hwhole]

theorem isSteady_nil : IsSteady p f [] := by
  intro a m b heq _ _
  obtain ⟨hab, rfl⟩ := List.append_eq_nil_iff.1 heq.symm
  obtain ⟨rfl, rfl⟩ := List.append_eq_nil_iff.1 hab
  rfl

/-- What neither begins nor ends with a member of the class is steady. -/
theorem isSteady_of_ends {cs : List α} (hfirst : ∀ c ∈ cs.head?, p c = false)
    (hlast : ∀ c ∈ cs.getLast?, p c = false) : IsSteady p f cs := by
  rintro a m b rfl ha hb
  obtain rfl : a = [] := by
    cases a with
    | nil => rfl
    | cons c a => exact absurd (ha c (by simp)) (Bool.eq_false_iff.1 (hfirst c (by simp)))
  obtain rfl : b = [] := by
    rcases List.eq_nil_or_concat b with rfl | ⟨b, c, rfl⟩
    · rfl
    · exact absurd (hb c (by simp)) (Bool.eq_false_iff.1 (hlast c (by simp)))
  rw [List.nil_append, List.append_nil]

variable [DecidableEq α] {sep : α}

/-- A separator at the end opens one more piece. -/
theorem pieces_concat_self (cs : List α) : pieces sep (cs ++ [sep]) = pieces sep cs ++ [[]] := by
  induction cs with
  | nil => exact pieces_cons_self sep []
  | cons c cs ih =>
    by_cases hc : c = sep
    · subst hc
      rw [List.cons_append, pieces_cons_self, ih, pieces_cons_self, List.cons_append]
    · obtain ⟨piece, rest, hpieces, hcons⟩ := pieces_cons_of_ne hc cs
      obtain ⟨piece', rest', hpieces', hcons'⟩ := pieces_cons_of_ne hc (cs ++ [sep])
      rw [ih, hpieces, List.cons_append, List.cons.injEq] at hpieces'
      rw [List.cons_append, hcons', hcons, List.cons_append, hpieces'.1, hpieces'.2]

/-- Any other character at the end belongs to the last piece. -/
theorem pieces_concat_of_ne {c : α} (h : c ≠ sep) (cs : List α) :
    ∃ init last, pieces sep cs = init ++ [last] ∧
      pieces sep (cs ++ [c]) = init ++ [last ++ [c]] := by
  induction cs with
  | nil => exact ⟨[], [], rfl, pieces_of_not_mem (by simpa using Ne.symm h)⟩
  | cons d cs ih =>
    obtain ⟨init, last, hpieces, hconcat⟩ := ih
    by_cases hd : d = sep
    · subst hd
      refine ⟨[] :: init, last, ?_, ?_⟩
      · rw [pieces_cons_self, hpieces, List.cons_append]
      · rw [List.cons_append, pieces_cons_self, hconcat, List.cons_append]
    · obtain ⟨piece, rest, hfirst, hcons⟩ := pieces_cons_of_ne hd cs
      obtain ⟨piece', rest', hfirst', hcons'⟩ := pieces_cons_of_ne hd (cs ++ [c])
      rw [hpieces] at hfirst
      rw [hconcat] at hfirst'
      -- The first piece may be the last one, which then goes on.
      cases init with
      | nil =>
        simp only [List.nil_append, List.cons.injEq] at hfirst hfirst'
        refine ⟨[], d :: last, ?_, ?_⟩
        · rw [hcons, ← hfirst.1, ← hfirst.2, List.nil_append]
        · rw [List.cons_append, hcons', ← hfirst'.1, ← hfirst'.2]
          rfl
      | cons first init =>
        simp only [List.cons_append, List.cons.injEq] at hfirst hfirst'
        refine ⟨(d :: first) :: init, last, ?_, ?_⟩
        · rw [hcons, ← hfirst.1, ← hfirst.2, List.cons_append]
        · rw [List.cons_append, hcons', ← hfirst'.1, ← hfirst'.2, List.cons_append]

/-- What has no separator and stands at the end belongs to the last piece. -/
theorem exists_pieces_append_eq {ds : List α} (h : sep ∉ ds) (cs : List α) :
    ∃ init last, pieces sep cs = init ++ [last] ∧ pieces sep (cs ++ ds) = init ++ [last ++ ds] := by
  induction ds using List.reverseRecOn with
  | nil =>
    obtain ⟨init, last, heq⟩ :=
      (List.eq_nil_or_concat (pieces sep cs)).resolve_left (pieces_ne_nil sep cs)
    rw [List.concat_eq_append] at heq
    exact ⟨init, last, heq, by rw [List.append_nil, List.append_nil, heq]⟩
  | append_singleton ds c ih =>
    rw [List.mem_append, List.mem_singleton, not_or] at h
    obtain ⟨init, last, hcs, hds⟩ := ih h.1
    obtain ⟨init', last', hbefore, hafter⟩ := pieces_concat_of_ne (Ne.symm h.2) (cs ++ ds)
    obtain ⟨rfl, rfl⟩ := List.append_singleton_inj.1 (hbefore.symm.trans hds)
    exact ⟨init', last, hcs, by rw [← List.append_assoc, hafter, List.append_assoc]⟩

/-- Lines that each end in a break are the pieces between the breaks, and an empty one after the
last. -/
theorem pieces_flatMap {ls : List (List α)} (h : ∀ l ∈ ls, sep ∉ l) :
    pieces sep (ls.flatMap (· ++ [sep])) = ls ++ [[]] := by
  induction ls with
  | nil => rfl
  | cons l ls ih =>
    rw [List.forall_mem_cons] at h
    rw [List.flatMap_cons, List.append_assoc, List.singleton_append, pieces_append_cons h.1, ih h.2,
      List.cons_append]

/-- Nothing that is read of the pieces is lost with members of the class before the first piece. -/
theorem filterMap_pieces_append_left (hnil : f [] = none) {a m : List α} (ha : ∀ c ∈ a, p c)
    (h : ∀ l ∈ pieces sep (a ++ m), IsSteady p f l) :
    (pieces sep (a ++ m)).filterMap f = (pieces sep m).filterMap f := by
  induction a with
  | nil => rfl
  | cons c a ih =>
    rw [List.forall_mem_cons] at ha
    by_cases hc : c = sep
    · -- A separator ends an empty piece, and nothing is read of that.
      subst hc
      rw [List.cons_append, pieces_cons_self] at h ⊢
      rw [List.filterMap_cons_none hnil, ih ha.2 (List.forall_mem_cons.1 h).2]
    · obtain ⟨piece, rest, hpieces, hcons⟩ := pieces_cons_of_ne hc (a ++ m)
      rw [List.cons_append, hcons] at h ⊢
      obtain ⟨hpiece, hrest⟩ := List.forall_mem_cons.1 h
      have hone : ∀ d ∈ [c], p d := by simpa using ha.1
      have hkept : f piece = f (c :: piece) := hpiece [c] piece [] (by simp) hone (by simp)
      have hsteady : IsSteady p f piece :=
        IsSteady.of_append (a := [c]) (b := []) (by simpa using hpiece) hone (by simp)
      rw [← ih ha.2 (by rw [hpieces]; exact List.forall_mem_cons.2 ⟨hsteady, hrest⟩), hpieces,
        List.filterMap_cons, List.filterMap_cons, hkept]

/-- Nothing that is read of the pieces is lost with members of the class after the last piece. -/
theorem filterMap_pieces_append_right (hnil : f [] = none) {m b : List α} (hb : ∀ c ∈ b, p c)
    (h : ∀ l ∈ pieces sep (m ++ b), IsSteady p f l) :
    (∀ l ∈ pieces sep m, IsSteady p f l) ∧
      (pieces sep (m ++ b)).filterMap f = (pieces sep m).filterMap f := by
  induction b using List.reverseRecOn with
  | nil => simpa using h
  | append_singleton b c ih =>
    rw [List.forall_mem_append, List.forall_mem_singleton] at hb
    rw [← List.append_assoc] at h ⊢
    by_cases hc : c = sep
    · subst hc
      rw [pieces_concat_self] at h ⊢
      obtain ⟨hsteady, heq⟩ := ih hb.1 (List.forall_mem_append.1 h).1
      refine ⟨hsteady, ?_⟩
      rw [List.filterMap_append, heq, List.filterMap_cons_none hnil, List.filterMap_nil,
        List.append_nil]
    · obtain ⟨init, last, hpieces, hconcat⟩ := pieces_concat_of_ne hc (m ++ b)
      rw [hconcat] at h ⊢
      obtain ⟨hinit, hlast⟩ := List.forall_mem_append.1 h
      rw [List.forall_mem_singleton] at hlast
      have hone : ∀ d ∈ [c], p d := by simpa using hb.2
      have hkept : f last = f (last ++ [c]) := hlast [] last [c] (by simp) (by simp) hone
      have hsteady : IsSteady p f last :=
        IsSteady.of_append (a := []) (b := [c]) (by simpa using hlast) (by simp) hone
      obtain ⟨hm, heq⟩ := ih hb.1 (by
        rw [hpieces]
        exact List.forall_mem_append.2 ⟨hinit, List.forall_mem_singleton.2 hsteady⟩)
      refine ⟨hm, ?_⟩
      rw [← heq, hpieces, List.filterMap_append, List.filterMap_append, List.filterMap_cons,
        List.filterMap_cons, hkept]

/-- **Trimming.** Of steady pieces, what is read of the whole is read of its trimming. -/
theorem filterMap_pieces_trimBy (hnil : f [] = none) {cs : List α}
    (h : ∀ l ∈ pieces sep cs, IsSteady p f l) :
    (pieces sep (trimBy p cs)).filterMap f = (pieces sep cs).filterMap f := by
  obtain ⟨a, b, ha, hb, hcs⟩ := exists_trimBy_eq p cs
  rw [hcs] at h
  obtain ⟨hleft, hright⟩ := filterMap_pieces_append_right hnil hb h
  conv_rhs => rw [hcs, hright, filterMap_pieces_append_left hnil ha hleft]

end Text

end Dialectic
