import Dialectic.Proofs.Labellings

/-!
# Attacks counted from the back

Nothing keeps the ends of an attack among the arguments. What an end means is a position: it may be
counted from the back, and a framework with such ends has the encodings of the well-formed framework
in which they are counted from the front (`Encoding.complete_wrap`). An end that is no position at
all is met by every computation of labellings, which then fails (`Encoding.isOutside_complete`).
Main statement: `Engine.labellings_wrap`.
-/

namespace Dialectic

variable {α β σ : Type} {n : Nat}

/-! ## Positions -/

/-- Whether an error says that a sequence has no such position. -/
def IndexError.isOutside : IndexError → Bool
  | .noPosition _ _ => false
  | _ => true

/-- Whether a computation fails at a position that a sequence does not have. -/
def IsOutside (x : Except IndexError α) : Prop := ∃ e, x = .error e ∧ e.isOutside

theorem not_isOutside_ok (a : α) : ¬ IsOutside (.ok a) := by
  rintro ⟨e, he, -⟩
  cases he

theorem IsOutside.bind {x : Except IndexError α} (h : IsOutside x) (g : α → Except IndexError β) :
    IsOutside (x >>= g) := by
  obtain ⟨e, rfl, he⟩ := h
  exact ⟨e, rfl, he⟩

theorem IsOutside.map {x : Except IndexError α} (h : IsOutside x) (g : α → β) :
    IsOutside (x.map g) := by
  obtain ⟨e, rfl, he⟩ := h
  exact ⟨e, rfl, he⟩

/-- A run over a list fails at the first element at which it does, if it only fails at positions
that are not there. -/
theorem isOutside_mapM {g : α → Except IndexError β} {xs : List α}
    (hall : ∀ x ∈ xs, (∃ y, g x = .ok y) ∨ IsOutside (g x)) (hsome : ∃ x ∈ xs, IsOutside (g x)) :
    IsOutside (xs.mapM g) := by
  induction xs with
  | nil => simp at hsome
  | cons x xs ih =>
    rw [List.forall_mem_cons] at hall
    rw [List.mapM_cons]
    obtain ⟨y, hy⟩ | hx := hall.1
    · obtain ⟨z, hz, hout⟩ := hsome
      rw [hy]
      -- The element at which the run fails is not the first one.
      have hz' : z ∈ xs := (List.mem_cons.1 hz).resolve_left fun hzx =>
        not_isOutside_ok y (hy ▸ hzx ▸ hout)
      exact (ih hall.2 ⟨z, hz', hout⟩).bind _
    · exact hx.bind _

/-- Where two functions agree on a list, so do their runs. -/
theorem mapM_congr_of_mem {g h : α → Except IndexError β} {xs : List α}
    (hgh : ∀ x ∈ xs, g x = h x) : xs.mapM g = xs.mapM h := by
  induction xs with
  | nil => rfl
  | cons x xs ih =>
    rw [List.forall_mem_cons] at hgh
    rw [List.mapM_cons, List.mapM_cons, hgh.1, ih hgh.2]

namespace Index

/-- Whether a number is a position in a sequence of the given length, from the front or from the
back. -/
def Reaches (length i : Int) : Prop := -length ≤ i ∧ i < length

instance (length i : Int) : Decidable (Reaches length i) := inferInstanceAs (Decidable (_ ∧ _))

/-- The place of a position is its remainder, counted from the front. -/
theorem exists_place_eq (sequence : Sequence) {length : Nat} {i : Int} (h : Reaches length i) :
    ∃ p : Nat, p < length ∧ (p : Int) = i % length ∧ place sequence length i = .ok p := by
  obtain ⟨p, hp⟩ := Option.isSome_iff_exists.1 ((place?_isSome_iff length i).2 h)
  exact ⟨p, lt_of_place? hp, place?_eq_emod hp, by rw [place, hp]⟩

/-- A place in reach is the same after wrapping. -/
theorem place_emod (sequence : Sequence) {length : Nat} {i : Int} (h : Reaches length i) :
    place sequence length (i % length) = place sequence length i := by
  obtain ⟨p, hlt, hp, hplace⟩ := exists_place_eq sequence h
  rw [hplace, ← hp, place_natCast sequence hlt]

/-- A place out of reach is outside. -/
theorem isOutside_place (sequence : Sequence) {length : Nat} {i : Int} (h : ¬ Reaches length i) :
    IsOutside (place sequence length i) := by
  have hnone : place? length i = none := by
    rwa [← Option.not_isSome_iff_eq_none, place?_isSome_iff]
  rw [place, hnone]
  dsimp only
  split
  · exact ⟨_, rfl, rfl⟩
  · exact ⟨_, rfl, rfl⟩

/-- Reading in reach is the same after wrapping. -/
theorem read_emod (sequence : Sequence) {xs : Array α} {i : Int} (h : Reaches xs.size i) :
    read sequence xs (i % xs.size) = read sequence xs i := by
  rw [read, read, place_emod sequence h]

theorem exists_read_eq (sequence : Sequence) {xs : Array α} {i : Int} (h : Reaches xs.size i) :
    ∃ x, read sequence xs i = .ok x := by
  obtain ⟨p, hlt, -, hplace⟩ := exists_place_eq sequence h
  rw [read, hplace]
  exact ⟨xs[p], by simp [bind, Except.bind, hlt, pure, Except.pure]⟩

/-- Reading out of reach is outside. -/
theorem isOutside_read (sequence : Sequence) {xs : Array α} {i : Int} (h : ¬ Reaches xs.size i) :
    IsOutside (read sequence xs i) :=
  (isOutside_place sequence h).bind _

end Index

/-! ## Attacks -/

namespace Attack

/-- Whether both ends of an attack are positions among the given number of arguments. -/
def Reaches (size : Int) (a : Attack) : Prop :=
  Index.Reaches size a.origin ∧ Index.Reaches size a.target

instance (size : Int) (a : Attack) : Decidable (a.Reaches size) :=
  inferInstanceAs (Decidable (_ ∧ _))

/-- The attack with both ends counted from the front. -/
def wrap (size : Int) (a : Attack) : Attack := ⟨a.origin % size, a.target % size⟩

end Attack

namespace Framework

variable {f : Framework}

/-- The framework with the ends of all attacks counted from the front. -/
def wrap (f : Framework) : Framework := { f with attacks := f.attacks.map (·.wrap f.size) }

@[simp] theorem size_wrap (f : Framework) : f.wrap.size = f.size := rfl

/-- A wrapped framework is well-formed. -/
theorem wellFormed_wrap (h : 0 < f.size) : f.wrap.WellFormed := by
  refine ⟨Int.le_of_lt h, ?_⟩
  change ∀ a ∈ f.attacks.map (·.wrap f.size), a.isWithin f.size
  rw [List.forall_mem_map]
  intro a _
  have hne := Int.ne_of_gt h
  exact Attack.isWithin_iff.2
    ⟨⟨Int.emod_nonneg _ hne, Int.emod_lt_of_pos _ h⟩, Int.emod_nonneg _ hne, Int.emod_lt_of_pos _ h⟩

/-! ## The table of attackers -/

/-- An attacker is entered in the same row after wrapping. -/
theorem enter_emod {rows : Array (Array Int)} {a : Attack} (h : Index.Reaches rows.size a.target) :
    enter rows ⟨a.origin, a.target % rows.size⟩ = enter rows a := by
  rw [enter, enter, Index.place_emod .list h]

theorem exists_enter_eq {rows : Array (Array Int)} {a : Attack}
    (h : Index.Reaches rows.size a.target) :
    ∃ rows', enter rows a = .ok rows' ∧ rows'.size = rows.size := by
  obtain ⟨p, -, -, hplace⟩ := Index.exists_place_eq .list h
  rw [enter, hplace]
  exact ⟨_, rfl, Array.size_modify⟩

/-- Attacks are entered as they are if what they attack is counted from the front. -/
theorem foldlM_enter_emod {as : List Attack} {rows : Array (Array Int)} (hrows : rows.size = n)
    (h : ∀ a ∈ as, Index.Reaches n a.target) :
    (as.map fun a => (⟨a.origin, a.target % n⟩ : Attack)).foldlM enter rows =
      as.foldlM enter rows := by
  induction as generalizing rows with
  | nil => rfl
  | cons a as ih =>
    subst hrows
    rw [List.forall_mem_cons] at h
    obtain ⟨rows', henter, hsize⟩ := exists_enter_eq h.1
    rw [List.map_cons, List.foldlM_cons, List.foldlM_cons, enter_emod h.1, henter]
    exact ih hsize h.2

/-- An attack on something that is no position cannot be entered. -/
theorem isOutside_foldlM_enter {as : List Attack} {rows : Array (Array Int)} (hrows : rows.size = n)
    (h : ∃ a ∈ as, ¬ Index.Reaches n a.target) : IsOutside (as.foldlM enter rows) := by
  induction as generalizing rows with
  | nil => simp at h
  | cons a as ih =>
    subst hrows
    rw [List.foldlM_cons]
    by_cases ha : Index.Reaches rows.size a.target
    · obtain ⟨rows', henter, hsize⟩ := exists_enter_eq ha
      rw [henter]
      exact ih hsize ((List.exists_mem_cons_iff _ a as).1 h |>.resolve_left (not_not.2 ha))
    · exact ((Index.isOutside_place .list ha).bind _).bind _

/-- The attackers of an argument as they are given, where what they attack may be counted from the
back. -/
def originsOn (f : Framework) (i : Int) : List Int :=
  (f.attacks.filter fun a => a.target % f.size = i).map (·.origin)

/-- The attackers after wrapping are the wrapped attackers. -/
theorem attackersOf_wrap (f : Framework) (i : Int) :
    f.wrap.attackersOf i = (f.originsOn i).map (· % f.size) := by
  rw [attackersOf, originsOn, wrap, List.filter_map, List.map_map, List.map_map]
  rfl

/-- **The table of attackers.** If everything that is attacked is a position, the row of an argument
lists what attacks it from either end. -/
theorem attackerIndex_eq_originsOn (hn : f.size = n) (hpos : 0 < n)
    (h : ∀ a ∈ f.attacks, Index.Reaches n a.target) :
    f.attackerIndex = .ok ((List.range n).map fun i : Nat => f.originsOn i) := by
  -- The framework in which what is attacked is counted from the front, but not what attacks.
  let g : Framework := { f with attacks := f.attacks.map fun a => ⟨a.origin, a.target % n⟩ }
  have hg : g.size = n := hn
  have hindex : f.attackerIndex = g.attackerIndex := by
    rw [attackerIndex, attackerIndex, hn, foldlM_enter_emod (by simp) h]
  refine hindex.trans ((attackerIndex_eq hg ?_).trans ?_)
  · rw [List.forall_mem_map]
    intro a _
    exact ⟨Int.emod_nonneg _ (by omega), Int.emod_lt_of_pos _ (by omega)⟩
  · congr 1
    apply List.map_congr_left
    intro i _
    rw [attackersOf, originsOn, hn, List.filter_map, List.map_map]
    rfl

/-- An attack on something out of reach makes the index fail. -/
theorem isOutside_attackerIndex (hn : f.size = n)
    (h : ∃ a ∈ f.attacks, ¬ Index.Reaches n a.target) : IsOutside f.attackerIndex :=
  (isOutside_foldlM_enter (by simp [hn]) h).map _

end Framework

/-! ## Encodings -/

namespace Cell

variable {inn out : Array Int} {js : List Int}

/-- The clauses of a cell are the same for the wrapped attackers. -/
theorem determined_map_emod (c : Cell) (hinn : inn.size = n) (hout : out.size = n)
    (h : ∀ j ∈ js, Index.Reaches n j) :
    c.determined inn out (js.map (· % (n : Int))) = c.determined inn out js := by
  have hread : ∀ xs : Array Int, xs.size = n →
      (js.map (· % (n : Int))).mapM (Index.read .tuple xs) = js.mapM (Index.read .tuple xs) := by
    intro xs hxs
    subst hxs
    rw [List.mapM_map]
    exact mapM_congr_of_mem fun j hj => Index.read_emod .tuple (h j hj)
  rw [determined, determined, hread out hout, hread inn hinn]
  simp only [List.map_eq_nil_iff]

/-- They exist if all attackers are in reach. -/
theorem exists_determined_eq (c : Cell) (hinn : inn.size = n) (hout : out.size = n)
    (h : ∀ j ∈ js, Index.Reaches n j) : ∃ clauses, c.determined inn out js = .ok clauses := by
  have hread : ∀ xs : Array Int, xs.size = n → ∃ ys, js.mapM (Index.read .tuple xs) = .ok ys := by
    intro xs hxs
    subst hxs
    choose! r hr using fun j (hj : j ∈ js) => Index.exists_read_eq .tuple (h j hj)
    exact ⟨_, mapM_eq_ok hr⟩
  obtain ⟨outs, houts⟩ := hread out hout
  obtain ⟨inns, hinns⟩ := hread inn hinn
  rw [determined, houts, hinns]
  split
  · exact ⟨_, rfl⟩
  · exact ⟨_, rfl⟩

/-- The status of an argument cannot be determined if something that attacks it is no position. -/
theorem isOutside_determined (c : Cell) (hout : out.size = n) (h : ∃ j ∈ js, ¬ Index.Reaches n j) :
    IsOutside (c.determined inn out js) := by
  subst hout
  obtain ⟨j, hj, hne⟩ := h
  rw [determined, if_neg (List.ne_nil_of_mem hj)]
  refine (isOutside_mapM (fun i _ => ?_) ⟨j, hj, Index.isOutside_read .tuple hne⟩).bind _
  by_cases hi : Index.Reaches out.size i
  · exact .inl (Index.exists_read_eq .tuple hi)
  · exact .inr (Index.isOutside_read .tuple hi)

end Cell

namespace Encoding

variable {f : Framework}

theorem size_vars (n : Nat) (s : Status) : (s.vars n).toArray.size = n := by
  simp [Status.vars]

/-- **From either end.** A framework whose attacks have positions as ends is encoded like the one in
which they are counted from the front. -/
theorem complete_wrap (hpos : 0 < f.size) (h : ∀ a ∈ f.attacks, a.Reaches f.size) :
    complete f.wrap = complete f := by
  have hwf := Framework.wellFormed_wrap hpos
  obtain ⟨n, hn⟩ := hwf.exists_size_eq
  rw [complete_eq_map hn (hwf.attackerIndex_eq hn)]
  rw [Framework.size_wrap] at hn
  rw [hn] at hpos h
  rw [complete_eq_map hn (Framework.attackerIndex_eq_originsOn hn (by omega) fun a ha =>
    (h a ha).2)]
  congr 1
  refine mapM_congr_of_mem fun i _ => ?_
  rw [Framework.attackersOf_wrap, hn]
  refine Cell.determined_map_emod _ (size_vars n _) (size_vars n _) fun j hj => ?_
  obtain ⟨a, ha, rfl⟩ := List.mem_map.1 hj
  exact (h a (List.mem_filter.1 ha).1).1

/-- **From neither end.** A framework with an end that is no position cannot be encoded. -/
theorem isOutside_complete (hpos : 0 < f.size) (h : ∃ a ∈ f.attacks, ¬ a.Reaches f.size) :
    IsOutside (complete f) := by
  obtain ⟨n, hn⟩ := Int.eq_ofNat_of_zero_le (Int.le_of_lt hpos)
  rw [hn] at hpos h
  by_cases htargets : ∀ a ∈ f.attacks, Index.Reaches n a.target
  · rw [complete_eq_map hn (Framework.attackerIndex_eq_originsOn hn (by omega) htargets)]
    refine (isOutside_mapM (fun i _ => ?_) ?_).map _
    · by_cases hi : ∀ j ∈ f.originsOn i, Index.Reaches n j
      · exact .inl (Cell.exists_determined_eq _ (size_vars n _) (size_vars n _) hi)
      · push Not at hi
        exact .inr (Cell.isOutside_determined _ (size_vars n _) hi)
    · -- What is no position attacks something, and is met in the row of that.
      obtain ⟨a, ha, hne⟩ := h
      have horigin : ¬ Index.Reaches n a.origin := fun ho => hne ⟨ho, htargets a ha⟩
      obtain ⟨p, hlt, hp, -⟩ := Index.exists_place_eq .list (htargets a ha)
      refine ⟨p, List.mem_range.2 hlt,
        Cell.isOutside_determined _ (size_vars n _) ⟨a.origin, ?_, horigin⟩⟩
      exact List.mem_map_of_mem (List.mem_filter.2 ⟨ha, by simp [hn, hp]⟩)
  · push Not at htargets
    rw [complete, hn, LabelVariables.allocate_natCast]
    exact (Framework.isOutside_attackerIndex hn htargets).bind _

end Encoding

/-! ## Labellings -/

namespace Engine

variable {e : Engine σ} {f g : Framework}

/-- What is computed of a framework depends on its size and its encoding only. -/
theorem labellings_congr (hsize : f.size = g.size) (h : Encoding.complete f = Encoding.complete g)
    (s : Semantics) : e.labellings f s = e.labellings g s := by
  cases s with
  | complete => rw [labellings, labellings, complete, complete, h]
  | stable => rw [labellings, labellings, stable, stable, Encoding.stable, Encoding.stable, h]
  | preferred => rw [labellings, labellings, preferred, preferred, h, hsize]

/-- A framework with arguments that cannot be encoded has no labellings. -/
theorem labellings_eq_error (hpos : 0 < f.size) {err : IndexError}
    (h : Encoding.complete f = .error err) (s : Semantics) :
    e.labellings f s = .error (.index err) := by
  cases s with
  | complete =>
    rw [labellings, complete, h]
    rfl
  | stable =>
    rw [labellings, stable, Encoding.stable, h]
    rfl
  | preferred =>
    rw [labellings, preferred, if_neg (Int.ne_of_gt hpos), h]
    rfl

/-- **Attacks from either end.** The labellings of a framework with arguments fail to be computed,
at a position that is not there, exactly if some attack has an end that is none. Otherwise the
framework is encoded like the well-formed one in which all ends are counted from the front, and has
the labellings of that. -/
theorem labellings_wrap {S : Nat → Sat.Solver σ} (he : e.backend = .ok S) (hpos : 0 < f.size)
    (s : Semantics) :
    ((∃ err : IndexError, e.labellings f s = .error (.index err) ∧ err.isOutside) ↔
      ∃ a ∈ f.attacks, ¬ a.Reaches f.size) ∧
    ((∀ a ∈ f.attacks, a.Reaches f.size) →
      f.wrap.WellFormed ∧
        (∃ encoding, Encoding.complete f = .ok encoding ∧ Encoding.complete f.wrap = .ok encoding) ∧
        ∃ ls, e.labellings f s = .ok ls ∧ e.labellings f.wrap s = .ok ls ∧
          Enumerates (f.wrap.Admits s) ls) := by
  have hwf := Framework.wellFormed_wrap hpos
  have hok : (∀ a ∈ f.attacks, a.Reaches f.size) →
      ∃ ls, e.labellings f s = .ok ls ∧ e.labellings f.wrap s = .ok ls ∧
        Enumerates (f.wrap.Admits s) ls := by
    intro h
    obtain ⟨ls, hls, henum⟩ := labellings_spec hwf S s
    rw [← labellings_eq he] at hls
    refine ⟨ls, ?_, hls, henum⟩
    rw [← hls]
    exact labellings_congr f.size_wrap.symm (Encoding.complete_wrap hpos h).symm s
  refine ⟨⟨?_, fun h => ?_⟩, fun h => ⟨hwf, ?_, hok h⟩⟩
  · rintro ⟨err, herr, -⟩
    by_contra hnone
    push Not at hnone
    obtain ⟨ls, hls, -⟩ := hok hnone
    rw [hls] at herr
    cases herr
  · obtain ⟨err, herr, hout⟩ := Encoding.isOutside_complete hpos h
    exact ⟨err, labellings_eq_error hpos herr s, hout⟩
  · obtain ⟨n, hn⟩ := hwf.exists_size_eq
    rw [← Encoding.complete_wrap hpos h, complete_eq hwf hn]
    exact ⟨_, rfl, rfl⟩

/-- The last of three arguments attacks the first, which attacks the one in the middle; nothing is
three after the first. -/
theorem labellings_wrap_from_the_back :
    (∃ ls, (named (.str "glucose4")).labellings ⟨3, [⟨-1, 0⟩, ⟨-3, -2⟩], none⟩ .preferred = .ok ls ∧
      (named (.str "glucose4")).labellings ⟨3, [⟨2, 0⟩, ⟨0, 1⟩], none⟩ .preferred = .ok ls) ∧
    ∃ err : IndexError, (named (.str "glucose4")).labellings ⟨3, [⟨-1, 0⟩, ⟨3, -2⟩], none⟩ .stable =
      .error (.index err) ∧ err.isOutside := by
  have hsolvers : (named (.str "glucose4")).backend = .ok fun _ => .learning :=
    backend_named (by decide +kernel)
  constructor
  · obtain ⟨-, -, ls, hls, hls', -⟩ :=
      (labellings_wrap (f := ⟨3, [⟨-1, 0⟩, ⟨-3, -2⟩], none⟩) hsolvers (by decide)
      .preferred).2 (by decide)
    exact ⟨ls, hls, hls'⟩
  · exact (labellings_wrap hsolvers (by decide) .stable).1.2 (by decide)

end Engine

end Dialectic
