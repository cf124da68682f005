import Dialectic.Proofs.Building
import Dialectic.Proofs.Grammar
import Mathlib.Data.List.Perm.Subperm

/-!
# Tables of names

A table that gives names indices is accepted if every index is in range and not taken. That is all
that is checked, and it is enough: by counting, no place is left without a name
(`Framework.exists_namesByIndex_iff`). A list of names is made into a table that always passes, so
that a framework of names fails only for a name that is not listed, and the first such name is the
one that is reported (`Framework.mapM_attackOf_numbered`). Main statement: `Framework.tables_exact`.
-/

namespace Dialectic.Framework

variable {f : Framework} {n : Nat} {table : List (Text × Int)} {attacks : List Attack}
  {names : List Text} {pairs : List (Text × Text)}

/-! ## Which tables are accepted -/

/-- Whether the indices of a table are the numbers below its length, each once and in any order. -/
def IsNumbering (table : List (Text × Int)) : Prop :=
  (table.map (·.2)).Perm ((List.range table.length).map fun i : Nat => (i : Int))

/-- The numbers below `n` differ from each other as integers too. -/
theorem nodup_range_map (n : Nat) : ((List.range n).map fun i : Nat => (i : Int)).Nodup :=
  List.nodup_range.map fun _ _ h => Int.natCast_inj.1 h

/-- No number stands twice in a numbering. -/
theorem IsNumbering.nodup (h : IsNumbering table) : (table.map (·.2)).Nodup :=
  (List.Perm.nodup_iff h).2 (nodup_range_map _)

/-- Every number of it is one below its length. -/
theorem IsNumbering.exists_eq (h : IsNumbering table) {entry : Text × Int} (he : entry ∈ table) :
    ∃ i : Nat, i < table.length ∧ entry.2 = i := by
  have hmem := (List.Perm.mem_iff h).1 (List.mem_map_of_mem he)
  obtain ⟨i, hi, heq⟩ := List.mem_map.1 hmem
  exact ⟨i, List.mem_range.1 hi, heq.symm⟩

/-- Entries whose slots are free, and different from each other, are all placed. -/
theorem exists_foldlM_place {slots : List (Option Text)} (hnodup : (table.map (·.2)).Nodup)
    (hfree : ∀ entry ∈ table, ∃ i : Nat, entry.2 = i ∧ slots[i]? = some none) :
    ∃ slots', table.foldlM (place n) slots = .ok slots' := by
  induction table generalizing slots with
  | nil => exact ⟨slots, rfl⟩
  | cons entry table ih =>
    rw [List.map_cons, List.nodup_cons] at hnodup
    rw [List.forall_mem_cons] at hfree
    obtain ⟨⟨i, hi, hslot⟩, hrest⟩ := hfree
    have hplace := place_eq_ok_iff (n := n).2 ⟨i, hi, hslot, rfl⟩
    -- Filling one slot leaves the others free, since no other entry has its index.
    have hfree' : ∀ e ∈ table, ∃ j : Nat,
        e.2 = j ∧ (slots.set i (some entry.1))[j]? = some none := by
      intro e he
      obtain ⟨j, hj, hslot'⟩ := hrest e he
      refine ⟨j, hj, ?_⟩
      have hne : i ≠ j := by
        rintro rfl
        apply hnodup.1
        rw [hi, ← hj]
        exact List.mem_map_of_mem he
      rw [List.getElem?_set_ne hne]
      exact hslot'
    obtain ⟨slots', hslots'⟩ := ih hnodup.2 hfree'
    refine ⟨slots', ?_⟩
    rw [List.foldlM_cons, hplace]
    exact hslots'

/-- Where a table is accepted every place gets a name, so that every number below its length is an
index. -/
theorem isNumbering_of_namesByIndex (h : namesByIndex table = .ok names) : IsNumbering table := by
  obtain ⟨hlength, hspec⟩ := namesByIndex_spec h
  have hsubset : (List.range table.length).map (fun i : Nat => (i : Int)) ⊆ table.map (·.2) := by
    intro k hk
    obtain ⟨i, hi, rfl⟩ := List.mem_map.1 hk
    rw [List.mem_range, ← hlength] at hi
    have hentry := (hspec i names[i]).1 (List.getElem?_eq_getElem hi)
    exact List.mem_map_of_mem hentry
  have hsubperm := List.subperm_of_subset (nodup_range_map _) hsubset
  exact (hsubperm.perm_of_length_le (by simp)).symm

/-- **Accepted tables.** A table is accepted exactly if its indices are the numbers below its
length, each once. -/
theorem exists_namesByIndex_iff :
    (∃ names, namesByIndex table = .ok names) ↔ IsNumbering table := by
  constructor
  · rintro ⟨names, h⟩
    exact isNumbering_of_namesByIndex h
  · intro h
    have hfree : ∀ entry ∈ table, ∃ i : Nat, entry.2 = i ∧
        (List.replicate table.length (none : Option Text))[i]? = some none := by
      intro entry he
      obtain ⟨i, hi, heq⟩ := h.exists_eq he
      exact ⟨i, heq, List.getElem?_replicate_of_lt hi⟩
    obtain ⟨slots, hslots⟩ := exists_foldlM_place (n := table.length) h.nodup hfree
    exact ⟨slots.map (·.getD []), map_eq_ok_iff.2 ⟨slots, hslots, rfl⟩⟩

/-- Whether some names are those of a table, each at its index. -/
structure AreNamesOf (table : List (Text × Int)) (names : List Text) : Prop where
  /-- There are as many names as entries. -/
  length_eq : names.length = table.length
  /-- At the index that the table gives a name, there is the name. -/
  get_eq : ∀ entry ∈ table, Index.get .tuple names entry.2 = .ok entry.1

/-- Names that are listed by their numbers are those of the table. -/
theorem areNamesOf_of_namesByIndex (h : namesByIndex table = .ok names) :
    AreNamesOf table names := by
  obtain ⟨hlength, hspec⟩ := namesByIndex_spec h
  refine ⟨hlength, ?_⟩
  rintro ⟨x, i⟩ he
  obtain ⟨k, hk, rfl⟩ := (isNumbering_of_namesByIndex h).exists_eq he
  have hx := (hspec k x).2 he
  rw [← hlength] at hk
  rw [Index.get_natCast .tuple hk,
    ← Option.some_inj.1 ((List.getElem?_eq_getElem hk).symm.trans hx)]

/-- An accepted table says which names stand where. -/
theorem AreNamesOf.eq {names' : List Text} (h : AreNamesOf table names)
    (hnames : namesByIndex table = .ok names') : names = names' := by
  obtain ⟨hlength, hspec⟩ := namesByIndex_spec hnames
  apply List.ext_getElem (h.length_eq.trans hlength.symm)
  intro k hk hk'
  have hentry := (hspec k names'[k]).1 (List.getElem?_eq_getElem hk')
  have hget := h.get_eq _ hentry
  rw [Index.get_natCast .tuple hk] at hget
  exact Except.ok.inj hget

/-! ## Which names are not listed -/

/-- The first name in some pairs that is not in a list. -/
def firstUnlisted (names : List Text) (pairs : List (Text × Text)) : Option Text :=
  (pairs.flatMap fun p => [p.1, p.2]).find? fun x => decide (x ∉ names)

/-- A name that comes again is listed just as once. -/
theorem firstUnlisted_firstSeen (names : List Text) (pairs : List (Text × Text)) :
    firstUnlisted (firstSeen names) pairs = firstUnlisted names pairs := by
  simp only [firstUnlisted, mem_firstSeen]

/-- No name is unlisted exactly if both names of all pairs are listed. -/
theorem firstUnlisted_eq_none_iff :
    firstUnlisted names pairs = none ↔ ∀ p ∈ pairs, p.1 ∈ names ∧ p.2 ∈ names := by
  simp [firstUnlisted, or_imp, forall_and]

/-- An attack between names: the first of its two names that is not listed is the error. -/
theorem attackOf_numbered_eq (names : List Text) (p : Text × Text) : attackOf (numbered names) p =
    if p.1 ∈ names then
      if p.2 ∈ names then .ok (between names p) else .error (.unknownName (.str p.2))
    else .error (.unknownName (.str p.1)) := by
  rw [attackOf, indexOf_numbered, indexOf_numbered]
  by_cases h₁ : p.1 ∈ names
  · by_cases h₂ : p.2 ∈ names
    · simp only [if_pos h₁, if_pos h₂]
      rfl
    · simp only [if_pos h₁, if_neg h₂]
      rfl
  · simp only [if_neg h₁]
    rfl

/-- Attacks by name are resolved up to the first name that is not listed. -/
theorem mapM_attackOf_numbered (names : List Text) (pairs : List (Text × Text)) :
    pairs.mapM (attackOf (numbered names)) =
      match firstUnlisted names pairs with
      | some x => .error (.unknownName (.str x))
      | none => .ok (pairs.map (between names)) := by
  induction pairs with
  | nil => rfl
  | cons p pairs ih =>
    rw [List.mapM_cons, attackOf_numbered_eq, ih]
    simp only [firstUnlisted, List.flatMap_cons, List.cons_append, List.nil_append]
    by_cases h₁ : p.1 ∈ names
    · by_cases h₂ : p.2 ∈ names
      · rw [if_pos h₁, if_pos h₂, List.find?_cons_of_neg (by simpa using h₁),
          List.find?_cons_of_neg (by simpa using h₂)]
        cases (pairs.flatMap fun p => [p.1, p.2]).find? fun x => decide (x ∉ names) <;> rfl
      · rw [if_pos h₁, if_neg h₂, List.find?_cons_of_neg (by simpa using h₁),
          List.find?_cons_of_pos (by simpa using h₂)]
        rfl
    · rw [if_neg h₁, List.find?_cons_of_pos (by simpa using h₁)]
      rfl

/-! ## What frameworks of names are -/

/-- Whether a framework has the names of a table, each at its index, and the given attacks. -/
structure IsOfTable (table : List (Text × Int)) (attacks : List Attack) (f : Framework) : Prop where
  /-- There are as many arguments as entries. -/
  size_eq : f.size = table.length
  /-- The attacks are those that were given. -/
  attacks_eq : f.attacks = attacks
  /-- The names are those of the table. -/
  names_eq : ∃ names, f.names = some names ∧ AreNamesOf table names

/-- Whether a framework has the given names, each once and in the order in which they first come,
and attacks between the arguments with the given pairs of names. -/
structure IsOfNames (names : List Text) (pairs : List (Text × Text)) (f : Framework) : Prop where
  /-- The names are those of the list that differ, and there is an argument for each. -/
  names_eq : ∃ firsts, f.names = some firsts ∧ IsFirstOrder firsts names ∧ f.size = firsts.length
  /-- The names of the ends of the attacks are the pairs. -/
  attacks_eq : List.Forall₂
    (fun a p => f.nameOf a.origin = .ok (some p.1) ∧ f.nameOf a.target = .ok (some p.2))
    f.attacks pairs

/-- A framework is built from a table exactly if the table is a numbering and the attacks are within
it. -/
theorem ofNamed_eq_ok_iff_isOfTable : ofNamed table attacks = .ok f ↔
    IsNumbering table ∧ (∀ a ∈ attacks, a.isWithin table.length) ∧ IsOfTable table attacks f := by
  rw [ofNamed_eq_ok_iff]
  constructor
  · rintro ⟨names, hnames, hwithin, rfl⟩
    exact ⟨isNumbering_of_namesByIndex hnames, hwithin, rfl, rfl, names, rfl,
      areNamesOf_of_namesByIndex hnames⟩
  · rintro ⟨hnumbering, hwithin, hsize, hattacks, names, hfnames, hof⟩
    obtain ⟨names', hnames'⟩ := exists_namesByIndex_iff.2 hnumbering
    refine ⟨names', hnames', hwithin, ?_⟩
    obtain rfl := hof.eq hnames'
    cases f
    simp only at hsize hattacks hfnames
    rw [hsize, hattacks, hfnames]

/-- The name of the argument at the first place of a name is that name. -/
theorem nameOf_idxOf {x : Text} (hnames : f.names = some names) (hx : x ∈ names) :
    f.nameOf (names.idxOf x : Nat) = .ok (some x) := by
  have hlt := List.idxOf_lt_length_iff.2 hx
  have hget : Index.get .tuple names (names.idxOf x : Nat) = .ok x := by
    rw [Index.get_natCast .tuple hlt, List.getElem_idxOf hlt]
  rw [nameOf, hnames]
  simp only [hget]
  rfl

/-- The framework of names has each of them once, in the order of their first places. -/
theorem isOfNames_firstSeen (h : ∀ p ∈ pairs, p.1 ∈ names ∧ p.2 ∈ names) :
    IsOfNames names pairs ⟨(firstSeen names).length, pairs.map (between (firstSeen names)),
      some (firstSeen names)⟩ := by
  refine ⟨⟨firstSeen names, rfl, isFirstOrder_firstSeen names, rfl⟩, ?_⟩
  rw [List.forall₂_map_left_iff, List.forall₂_same]
  intro p hp
  obtain ⟨h₁, h₂⟩ := h p hp
  exact ⟨nameOf_idxOf rfl (mem_firstSeen.2 h₁), nameOf_idxOf rfl (mem_firstSeen.2 h₂)⟩

/-- Frameworks of a list of names are as the list says, unless a name is not listed. -/
theorem ofNames_cases (names : List Text) (pairs : List (Text × Text)) :
    (∃ x, firstUnlisted names pairs = some x ∧
      ofNames names pairs = .error (.unknownName (.str x))) ∨
      (∀ p ∈ pairs, p.1 ∈ names ∧ p.2 ∈ names) ∧ ∃ f,
        ofNames names pairs = .ok f ∧ IsOfNames names pairs f := by
  cases hfirst : firstUnlisted names pairs with
  | some x =>
    refine .inl ⟨x, rfl, ?_⟩
    rw [ofNames, show tableOf names = numbered (firstSeen names) from rfl, mapM_attackOf_numbered,
      firstUnlisted_firstSeen, hfirst]
    rfl
  | none =>
    have hlisted := firstUnlisted_eq_none_iff.1 hfirst
    exact .inr ⟨hlisted, _, ofNames_eq hlisted, isOfNames_firstSeen hlisted⟩

/-- **Tables and lists of names.** A table makes a framework exactly if its indices are the numbers
below its length, each once, and the attacks are between these; then the framework has the names of
the table at their indices, and the attacks. The table of a list of names always is such a one. A
list of names makes a framework of the names that differ, in the order in which they first come,
with attacks between the arguments of the given names, unless a name is not listed: then the first
such name is what is reported, and there is no other error. -/
theorem tables_exact :
    (∀ (table : List (Text × Int)) (attacks : List Attack) (f : Framework),
      ofNamed table attacks = .ok f ↔ IsNumbering table ∧
        (∀ a ∈ attacks, a.isWithin table.length) ∧ IsOfTable table attacks f) ∧
    ∀ (names : List Text) (pairs : List (Text × Text)), IsNumbering (tableOf names) ∧
      ((∃ x, firstUnlisted names pairs = some x ∧
        ofNames names pairs = .error (.unknownName (.str x))) ∨
        (∀ p ∈ pairs, p.1 ∈ names ∧ p.2 ∈ names) ∧
          ∃ f, ofNames names pairs = .ok f ∧ IsOfNames names pairs f) := by
  refine ⟨fun table attacks f => ofNamed_eq_ok_iff_isOfTable, fun names pairs =>
    ⟨?_, ofNames_cases names pairs⟩⟩
  exact isNumbering_of_namesByIndex (namesByIndex_numbered (firstSeen names))

/-- The entries of a table may come in any order. -/
example : ofNamed [("b", 1), ("a", 0)] [⟨0, 1⟩] = .ok ⟨2, [⟨0, 1⟩], some ["a", "b"]⟩ := rfl

/-- What is not listed is reported, even if another name comes twice. -/
example : ofNames ["b", "a", "b"] [("a", "b"), ("b", "c")] = .error (.unknownName (.str "c")) := rfl

end Dialectic.Framework
