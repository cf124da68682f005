import Dialectic.Framework.Build
import Dialectic.Proofs.Attackers
import Dialectic.Proofs.Outcome
import Mathlib.Data.List.Nodup

/-!
# Frameworks that are built

A framework is sound if its attacks stay among its arguments and its names, if it has names, are one
for every argument and all different (`Framework.IsSound`). What is built from a table or a list of
names is sound, since filling the slots of a table one by one leaves none free (`foldlM_place`).
What is built from attacks alone is sound exactly if no number in it is negative
(`isSound_ofAttacks_iff`).
-/

namespace Dialectic.Framework

variable {f : Framework} {n : Nat} {table : List (Text × Int)} {attacks : List Attack}
  {names : List Text}

/-! ## Sound frameworks -/

/-- A framework whose attacks stay among its arguments and whose names, if there are any, are one
for every argument, all different. -/
structure IsSound (f : Framework) : Prop where
  /-- The attacks are between the arguments. -/
  wellFormed : f.WellFormed
  /-- There are as many names as arguments. -/
  length_names : ∀ names ∈ f.names, (names.length : Int) = f.size
  /-- No two arguments have one name. -/
  nodup_names : ∀ names ∈ f.names, names.Nodup

/-- The number of an argument as a text. -/
def numberName (i : Nat) : Text := Text.ofChars (Nat.toDigits 10 i)

theorem ofString_toString (i : Nat) : Text.ofString (toString i) = numberName i := by
  rw [Nat.toString_eq_ofList_toDigits, Text.ofString, String.toList_ofList, numberName]

/-- Different arguments have different names. -/
theorem numberName_injective : Function.Injective numberName := by
  intro i j h
  have hdigits := congrArg (Nat.ofDigitChars 10 · 0) (Text.ofChars_injective h)
  simpa using hdigits

/-- A sound framework has a name for every argument. -/
theorem IsSound.length_displayNames (h : f.IsSound) : (f.displayNames.length : Int) = f.size := by
  unfold displayNames
  split
  · exact h.length_names _ ‹_›
  · have := h.wellFormed.1
    rw [List.length_map, List.length_range]
    omega

/-- Arguments are called differently, whether they have names or are called by their numbers. -/
theorem IsSound.nodup_displayNames (h : f.IsSound) : f.displayNames.Nodup := by
  unfold displayNames
  split
  · exact h.nodup_names _ ‹_›
  · simp only [ofString_toString]
    exact List.nodup_range.map numberName_injective

/-! ## Filling slots -/

/-- A name is placed exactly if its index is the number of a free slot. -/
theorem place_eq_ok_iff {slots slots' : List (Option Text)} {entry : Text × Int} :
    place n slots entry = .ok slots' ↔
      ∃ i : Nat, entry.2 = i ∧ slots[i]? = some none ∧ slots' = slots.set i (some entry.1) := by
  unfold place
  split
  · rename_i h
    constructor
    · intro hs
      exact ⟨entry.2.toNat, by omega, h.2, (Except.ok.inj hs).symm⟩
    · rintro ⟨i, hi, -, rfl⟩
      rw [hi, Int.toNat_natCast]
  · rename_i h
    constructor
    · intro hs
      cases hs
    · rintro ⟨i, hi, hfree, -⟩
      exact absurd ⟨by omega, by rw [hi, Int.toNat_natCast]; exact hfree⟩ h

/-- Filling a free slot leaves one free slot less. -/
theorem count_none_set {slots : List (Option Text)} {i : Nat} {x : Text}
    (h : slots[i]? = some none) : (slots.set i (some x)).count none + 1 = slots.count none := by
  obtain ⟨hi, hs⟩ := List.getElem?_eq_some_iff.1 h
  have hpos : 0 < slots.count none := List.count_pos_iff.2 (hs ▸ List.getElem_mem hi)
  rw [List.count_set hi, hs]
  simp
  omega

/-- **Placing a table.** Every entry takes one free slot for good, and nothing else gets into a
slot. -/
theorem foldlM_place {slots slots' : List (Option Text)}
    (h : table.foldlM (place n) slots = .ok slots') :
    slots'.length = slots.length ∧ slots'.count none + table.length = slots.count none ∧
      ∀ (k : Nat) (x : Text), slots'[k]? = some (some x) ↔
        slots[k]? = some (some x) ∨ (x, (k : Int)) ∈ table := by
  induction table generalizing slots with
  | nil =>
    obtain rfl : slots = slots' := Except.ok.inj h
    simp
  | cons entry table ih =>
    rw [List.foldlM_cons, bind_eq_ok_iff] at h
    obtain ⟨next, hplace, hrest⟩ := h
    obtain ⟨i, hi, hfree, rfl⟩ := place_eq_ok_iff.1 hplace
    obtain ⟨hlength, hcount, hslots⟩ := ih hrest
    refine ⟨by rw [hlength, List.length_set], ?_, fun k x => ?_⟩
    · rw [← count_none_set hfree, ← hcount, List.length_cons]
      omega
    · obtain ⟨y, j⟩ := entry
      simp only at hi
      subst hi
      have hlt := (List.getElem?_eq_some_iff.1 hfree).1
      rw [hslots, List.mem_cons, Prod.mk.injEq, Int.natCast_inj, List.getElem?_set]
      -- The slot just filled was free before, so only the new name is found in it.
      by_cases hk : i = k
      · subst hk
        rw [if_pos rfl, if_pos hlt, hfree]
        simp [eq_comm]
      · rw [if_neg hk]
        simp [Ne.symm hk]

/-- **Names by index.** If a table is accepted, the name at a place is the one that the table puts
there. -/
theorem namesByIndex_spec (h : namesByIndex table = .ok names) :
    names.length = table.length ∧ ∀ (k : Nat) (x : Text),
      names[k]? = some x ↔ (x, (k : Int)) ∈ table := by
  rw [namesByIndex, map_eq_ok_iff] at h
  obtain ⟨slots, hslots, rfl⟩ := h
  obtain ⟨hlength, hcount, hmem⟩ := foldlM_place hslots
  rw [List.length_replicate] at hlength
  rw [List.count_replicate_self] at hcount
  -- Every entry took a free slot, and there were as many entries as slots, so none is left free.
  have hfull : none ∉ slots := fun hn => by
    have := List.count_pos_iff.2 hn
    omega
  refine ⟨by rw [List.length_map, hlength], fun k x => ?_⟩
  rw [List.getElem?_map, ← (hmem k x).trans (or_iff_right ?_)]
  · cases hs : slots[k]? with
    | none => simp
    | some o =>
      cases o with
      | none => exact absurd (List.mem_of_getElem? hs) hfull
      | some y => simp
  · rw [List.getElem?_replicate]
    split <;> simp

/-- Different names that a table lists once each get different places. -/
theorem nodup_of_namesByIndex (hkeys : (table.map (·.1)).Nodup)
    (h : namesByIndex table = .ok names) : names.Nodup := by
  rw [List.nodup_iff_getElem?_ne_getElem?]
  intro i j hij hj heq
  -- A name in two places would be listed with two indices.
  obtain ⟨-, hspec⟩ := namesByIndex_spec h
  have hjx := List.getElem?_eq_getElem hj
  have hi := (hspec i names[j]).1 (heq.trans hjx)
  have hj := (hspec j names[j]).1 hjx
  have := List.inj_on_of_nodup_map hkeys hi hj rfl
  simp only [Prod.mk.injEq, Int.natCast_inj, true_and] at this
  omega

/-! ## From a table of names -/

/-- The check is stood by attacks between arguments. -/
theorem checkRange_eq_ok_iff : checkRange n attacks = .ok () ↔ ∀ a ∈ attacks, a.isWithin n := by
  unfold checkRange
  cases hfind : attacks.find? fun a => !a.isWithin n with
  | none => simpa using hfind
  | some a =>
    have ha := List.find?_some hfind
    have hmem := List.mem_of_find?_eq_some hfind
    simp only [reduceCtorEq, false_iff]
    intro h
    simp [h a hmem] at ha

/-- A table and attacks make a framework exactly if the table fills its slots and the attacks are
between them. -/
theorem ofNamed_eq_ok_iff :
    ofNamed table attacks = .ok f ↔ ∃ names, namesByIndex table = .ok names ∧
      (∀ a ∈ attacks, a.isWithin table.length) ∧ f = ⟨table.length, attacks, some names⟩ := by
  rw [ofNamed, bind_eq_ok_iff]
  refine exists_congr fun names => and_congr_right fun _ => ?_
  rw [bind_eq_ok_iff, ← checkRange_eq_ok_iff]
  constructor
  · rintro ⟨⟨⟩, hr, hf⟩
    exact ⟨hr, (Except.ok.inj hf).symm⟩
  · rintro ⟨hr, rfl⟩
    exact ⟨(), hr, rfl⟩

/-- A framework of a table that lists no name twice is sound. -/
theorem isSound_of_ofNamed (hkeys : (table.map (·.1)).Nodup) (h : ofNamed table attacks = .ok f) :
    f.IsSound := by
  obtain ⟨names, hnames, hwithin, rfl⟩ := ofNamed_eq_ok_iff.1 h
  refine ⟨⟨by simp, hwithin⟩, ?_, ?_⟩
  · rintro _ ⟨⟩
    simp [(namesByIndex_spec hnames).1]
  · rintro _ ⟨⟩
    exact nodup_of_namesByIndex hkeys hnames

/-- A list of names as a table: every name has its place as its index. -/
def numbered (names : List Text) : List (Text × Int) := names.zipIdx.map fun p => (p.1, (p.2 : Int))

@[simp] theorem length_numbered (names : List Text) : (numbered names).length = names.length := by
  simp [numbered]

@[simp] theorem keys_numbered (names : List Text) : (numbered names).map (·.1) = names := by
  simp [numbered, Function.comp_def]

/-- Names that come in the order of their places go into the first free slot one after the other. -/
theorem foldlM_place_zipIdx (n : Nat) (done rest : List Text) :
    ((rest.zipIdx done.length).map fun p => (p.1, (p.2 : Int))).foldlM (place n)
      (done.map some ++ List.replicate rest.length none) = .ok ((done ++ rest).map some) := by
  induction rest generalizing done with
  | nil => simp [pure, Except.pure]
  | cons x rest ih =>
    have hplace : place n (done.map some ++ List.replicate (x :: rest).length none)
        (x, (done.length : Int)) =
        .ok ((done ++ [x]).map some ++ List.replicate rest.length none) := by
      refine place_eq_ok_iff.2 ⟨done.length, rfl, ?_, ?_⟩
      · rw [List.getElem?_append_right (by simp)]
        simp
      · rw [List.set_append_right _ _ (by simp)]
        simp [List.replicate_succ]
    have hrest := ih (done ++ [x])
    rw [List.length_append, List.length_singleton, List.append_assoc,
      List.singleton_append] at hrest
    rw [List.zipIdx_cons, List.map_cons, List.foldlM_cons, hplace]
    exact hrest

/-- Numbered names come back in their order. -/
theorem namesByIndex_numbered (names : List Text) : namesByIndex (numbered names) = .ok names := by
  have h := foldlM_place_zipIdx names.length [] names
  rw [namesByIndex, length_numbered]
  simp only [List.map_nil, List.nil_append, List.length_nil] at h
  rw [numbered, h]
  simp [Except.map, Function.comp_def]

/-- A list of names is always accepted as a table. -/
theorem ofNamed_numbered_eq_ok_iff :
    ofNamed (numbered names) attacks = .ok f ↔
      (∀ a ∈ attacks, a.isWithin names.length) ∧ f = ⟨names.length, attacks, some names⟩ := by
  rw [ofNamed_eq_ok_iff, namesByIndex_numbered, length_numbered]
  simp

/-- With numbered names only an attack can be wrong: one that leaves them. -/
theorem exists_of_ofNamed_numbered_eq_error {e : BuildError}
    (h : ofNamed (numbered names) attacks = .error e) :
    ∃ a ∈ attacks, e = .outsideRange names.length a := by
  rw [ofNamed, namesByIndex_numbered, length_numbered, checkRange] at h
  cases hfind : attacks.find? fun a => !a.isWithin names.length with
  | none =>
    rw [hfind] at h
    cases h
  | some a =>
    rw [hfind] at h
    exact ⟨a, List.mem_of_find?_eq_some hfind, (Except.error.inj h).symm⟩

/-! ## From a list of names -/

/-- A list of names that differ is its own list of first mentions. -/
theorem firstSeen_eq_self (h : names.Nodup) : firstSeen names = names := by
  induction names with
  | nil => rfl
  | cons x rest ih =>
    obtain ⟨hx, hrest⟩ := List.nodup_cons.1 h
    rw [firstSeen, ih hrest, List.filter_eq_self.2 fun y hy => ?_]
    simpa using fun hyx : y = x => hx (hyx ▸ hy)

/-- A name that is mentioned at the end comes last, unless it was mentioned before. -/
theorem firstSeen_concat (names : List Text) (x : Text) :
    firstSeen (names ++ [x]) = if x ∈ names then firstSeen names else firstSeen names ++ [x] := by
  induction names with
  | nil => rfl
  | cons y rest ih =>
    rw [List.cons_append, firstSeen, ih, firstSeen]
    by_cases hy : x = y
    · subst hy
      by_cases hr : x ∈ rest <;> simp [hr]
    · by_cases hr : x ∈ rest <;> simp [hr, hy]

/-- A name has the number of its first place. -/
theorem get?_zipIdx (names : List Text) (k : Nat) (x : Text) :
    Assoc.get? ((names.zipIdx k).map fun p => (p.1, (p.2 : Int))) x =
      if x ∈ names then some ((names.idxOf x + k : Nat) : Int) else none := by
  induction names generalizing k with
  | nil => rfl
  | cons y rest ih =>
    rw [List.zipIdx_cons, List.map_cons, Assoc.get?]
    by_cases hy : y = x
    · simp [hy]
    · rw [if_neg hy, ih, List.idxOf_cons_ne _ hy]
      by_cases hr : x ∈ rest
      · simp [hr]
        omega
      · simp [hr, Ne.symm hy]

/-- In a list of names as a table, a name has its first place as its index. -/
theorem indexOf_numbered (names : List Text) (x : Text) :
    indexOf (numbered names) x =
      if x ∈ names then .ok ((names.idxOf x : Nat) : Int) else .error (.unknownName (.str x)) := by
  rw [indexOf, numbered, get?_zipIdx]
  by_cases hx : x ∈ names <;> simp [hx]

/-- The attack between the places of two names. -/
def between (names : List Text) (pair : Text × Text) : Attack :=
  ⟨(names.idxOf pair.1 : Nat), (names.idxOf pair.2 : Nat)⟩

/-- An attack between listed names is one between their first places. -/
theorem attackOf_numbered {pair : Text × Text} (h : pair.1 ∈ names ∧ pair.2 ∈ names) :
    attackOf (numbered names) pair = .ok (between names pair) := by
  rw [attackOf, indexOf_numbered, if_pos h.1, indexOf_numbered, if_pos h.2]
  rfl

/-- Such an attack is within the framework of the names. -/
theorem isWithin_between {pair : Text × Text} (h : pair.1 ∈ names ∧ pair.2 ∈ names) :
    (between names pair).isWithin names.length := by
  have ho := List.idxOf_lt_length_iff.2 h.1
  have ht := List.idxOf_lt_length_iff.2 h.2
  rw [Attack.isWithin_iff]
  simp only [between]
  omega

/-- **Names in the order of their first mention.** If every attack is between names of the list,
there is a framework of the names that differ, with the attacks in their order. -/
theorem ofNames_eq {pairs : List (Text × Text)} (h : ∀ p ∈ pairs, p.1 ∈ names ∧ p.2 ∈ names) :
    ofNames names pairs =
      .ok ⟨(firstSeen names).length, pairs.map (between (firstSeen names)),
        some (firstSeen names)⟩ := by
  have hmem : ∀ p ∈ pairs, p.1 ∈ firstSeen names ∧ p.2 ∈ firstSeen names := by
    intro p hp
    rw [mem_firstSeen, mem_firstSeen]
    exact h p hp
  have hattacks := mapM_eq_ok fun p hp => attackOf_numbered (hmem p hp)
  rw [ofNames, show tableOf names = numbered (firstSeen names) from rfl, hattacks]
  refine ofNamed_numbered_eq_ok_iff.2 ⟨fun a ha => ?_, rfl⟩
  obtain ⟨p, hp, rfl⟩ := List.mem_map.1 ha
  exact isWithin_between (hmem p hp)

/-- No name is listed twice in the table. -/
theorem nodup_keys_tableOf (names : List Text) : ((tableOf names).map (·.1)).Nodup := by
  rw [show tableOf names = numbered (firstSeen names) from rfl, keys_numbered]
  exact nodup_firstSeen names

/-- A framework of a list of names, of which any may be mentioned again, is sound. -/
theorem isSound_of_ofNames {pairs : List (Text × Text)} (h : ofNames names pairs = .ok f) :
    f.IsSound := by
  obtain ⟨attacks, -, h⟩ := bind_eq_ok_iff.1 h
  exact isSound_of_ofNamed (nodup_keys_tableOf names) h

/-! ## From attacks alone -/

/-- The greatest number is at least minus one where no number is negative. -/
theorem neg_one_le_highest (h : ∀ a ∈ attacks, 0 ≤ a.origin ∧ 0 ≤ a.target) :
    -1 ≤ highest attacks := by
  cases attacks with
  | nil => exact Int.le_refl _
  | cons a rest =>
    have h₀ := (h a List.mem_cons_self).1
    have hle : a.origin ≤ highest (a :: rest) ∧ a.target ≤ highest (a :: rest) :=
      le_highest List.mem_cons_self
    omega

/-- **Attacks alone.** They make a sound framework exactly if none of their numbers is negative. -/
theorem isSound_ofAttacks_iff :
    (ofAttacks attacks).IsSound ↔ ∀ a ∈ attacks, 0 ≤ a.origin ∧ 0 ≤ a.target := by
  constructor
  · intro h a ha
    have hw := h.wellFormed.isWithin ha
    exact ⟨hw.1.1, hw.2.1⟩
  · intro h
    refine ⟨⟨?_, fun a ha => ?_⟩, ?_, ?_⟩
    · have := neg_one_le_highest h
      simp only [ofAttacks]
      omega
    · have hle : a.origin ≤ highest attacks ∧ a.target ≤ highest attacks := le_highest ha
      have h₀ := h a ha
      rw [Attack.isWithin_iff]
      simp only [ofAttacks]
      omega
    · rintro _ ⟨⟩
    · rintro _ ⟨⟩

/-! ## From values -/

/-- Attacks that are given as values are taken for attacks between integers. -/
theorem exists_of_ofAttackValues {together : Bool} {v : Json}
    (h : ofAttackValues together v = .ok f) : ∃ attacks, f = ofAttacks attacks := by
  obtain ⟨items, -, h⟩ := bind_eq_ok_iff.1 h
  split at h
  · obtain ⟨ends, -, h⟩ := bind_eq_ok_iff.1 h
    obtain ⟨attacks, -, h⟩ := bind_eq_ok_iff.1 h
    exact ⟨attacks, (Except.ok.inj h).symm⟩
  · obtain ⟨attacks, -, h⟩ := bind_eq_ok_iff.1 h
    exact ⟨attacks, (Except.ok.inj h).symm⟩

/-- What is built from values is built from some attacks. -/
theorem exists_of_ofNamedValues {v : Json} (h : ofNamedValues table v = .ok f) :
    ∃ attacks, ofNamed table attacks = .ok f := by
  obtain ⟨names, hnames, h⟩ := bind_eq_ok_iff.1 h
  obtain ⟨items, -, h⟩ := bind_eq_ok_iff.1 h
  obtain ⟨attacks, -, h⟩ := bind_eq_ok_iff.1 h
  refine ⟨attacks, ?_⟩
  rw [ofNamed, hnames]
  exact h

/-- The same holds where the values name the arguments. -/
theorem exists_of_ofNamesValues {v : Json} (h : ofNamesValues names v = .ok f) :
    ∃ attacks, ofNamed (tableOf names) attacks = .ok f := by
  obtain ⟨items, -, h⟩ := bind_eq_ok_iff.1 h
  obtain ⟨attacks, -, h⟩ := bind_eq_ok_iff.1 h
  exact ⟨attacks, h⟩

/-- What is built from a table, in which every name has one index, is sound. -/
theorem isSound_of_ofNamedValues {entries : List (Text × Int)} {v : Json}
    (h : ofNamedValues (Assoc.ofList entries) v = .ok f) : f.IsSound := by
  obtain ⟨attacks, h⟩ := exists_of_ofNamedValues h
  exact isSound_of_ofNamed (Assoc.nodup_keys_ofList entries) h

/-- What is built from a list of names, of which any may be mentioned again, is sound. -/
theorem isSound_of_ofNamesValues {v : Json} (h : ofNamesValues names v = .ok f) : f.IsSound := by
  obtain ⟨attacks, h⟩ := exists_of_ofNamesValues h
  exact isSound_of_ofNamed (nodup_keys_tableOf names) h

/-! ## From anything -/

/-- What a framework is built from: attacks alone, a table of names or a list of names, with attacks
as any values. -/
inductive Source where
  | attacks (together : Bool) (attacks : Json)
  | table (entries : List (Text × Int)) (attacks : Json)
  | names (names : List Text) (pairs : Json)

/-- The framework that is built. In a table, the last index of a name counts. -/
def Source.build : Source → Except BuildError Framework
  | .attacks together v => ofAttackValues together v
  | .table entries v => ofNamedValues (Assoc.ofList entries) v
  | .names names v => ofNamesValues names v

/-- Whether there are no names, so that nothing is checked. -/
def Source.isUnnamed : Source → Bool
  | .attacks .. => true
  | _ => false

/-- Whatever is built is sound, if it has no negative numbers where there are no names. -/
theorem Source.isSound {src : Source} (h : src.build = .ok f)
    (h₀ : src.isUnnamed → ∀ a ∈ f.attacks, 0 ≤ a.origin ∧ 0 ≤ a.target) : f.IsSound := by
  cases src with
  | attacks together v =>
    obtain ⟨attacks, rfl⟩ := exists_of_ofAttackValues h
    exact isSound_ofAttacks_iff.2 (h₀ rfl)
  | table entries v => exact isSound_of_ofNamedValues h
  | names names v => exact isSound_of_ofNamesValues h

/-- **Soundness of what is built.** A framework that comes of a table or of a list of names is
sound, whatever the attacks are. One that comes of attacks alone is sound exactly if none of their
numbers is negative: these are not checked. -/
theorem built_isSound {src : Source} (h : src.build = .ok f) :
    f.IsSound ↔ (src.isUnnamed → ∀ a ∈ f.attacks, 0 ≤ a.origin ∧ 0 ≤ a.target) := by
  constructor
  · intro hf _ a ha
    have hw := hf.wellFormed.isWithin ha
    exact ⟨hw.1.1, hw.2.1⟩
  · exact Source.isSound h

/-- A table that gives the second name the first place, the same names in their order, and attacks
alone. -/
theorem built_isSound_two_arguments :
    (Framework.IsSound ⟨2, [⟨0, 1⟩], some ["a", "b"]⟩ ↔
      ((Source.table [("b", 1), ("a", 0)] (.arr [.arr [.int 0, .int 1]])).isUnnamed →
        ∀ a ∈ ([⟨0, 1⟩] : List Attack), 0 ≤ a.origin ∧ 0 ≤ a.target)) ∧
    (Framework.IsSound ⟨2, [⟨1, 0⟩], some ["b", "a"]⟩ ↔
      ((Source.names ["b", "a", "b"] (.arr [.arr [.str "a", .str "b"]])).isUnnamed →
        ∀ a ∈ ([⟨1, 0⟩] : List Attack), 0 ≤ a.origin ∧ 0 ≤ a.target)) ∧
    (Framework.IsSound ⟨2, [⟨0, 1⟩], none⟩ ↔
      ((Source.attacks false (.arr [.arr [.int 0, .str "1"]])).isUnnamed →
        ∀ a ∈ ([⟨0, 1⟩] : List Attack), 0 ≤ a.origin ∧ 0 ≤ a.target)) :=
  ⟨built_isSound (f := ⟨2, [⟨0, 1⟩], some ["a", "b"]⟩) rfl,
    built_isSound (f := ⟨2, [⟨1, 0⟩], some ["b", "a"]⟩) rfl,
    built_isSound (f := ⟨2, [⟨0, 1⟩], none⟩) rfl⟩

/-- An attack of the argument minus five on itself makes a framework of minus four arguments. -/
theorem not_isSound_negative_attack :
    (Source.attacks false (.arr [.arr [.int (-5), .int (-5)]])).build = .ok ⟨-4, [⟨-5, -5⟩], none⟩ ∧
      ¬ Framework.IsSound ⟨-4, [⟨-5, -5⟩], none⟩ :=
  ⟨rfl, fun h => absurd h.wellFormed.1 (by decide)⟩

end Dialectic.Framework
