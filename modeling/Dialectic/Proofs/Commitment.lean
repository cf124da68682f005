import Dialectic.Proofs.Agreement
import Dialectic.Proofs.LogFile
import Dialectic.Proofs.Meanings
import Mathlib.Data.List.Induction

/-!
# What the last hash commits to

The hash of an entry commits to the entry, up to the order of its fields and up to surrogates that
make a pair, and the entry names the hash of the one before it. So the hash of the last entry
commits to all entries before it: of two logs that stand the check and have the same last hash, one
ends with the entries of the other (`last_hash_commits`). This is under the assumption that what is
hashed is told apart by its hashes (`AreComparable`). Objects that were read from a file have no
such pairs (`isRegular_of_mem_recent`), so of these the entries are the same but for the order of
their fields (`endsLike_iff_of_isRegular`).
-/

namespace Dialectic.Audit

variable {x y : List (Text × Json)} {es xs ys : List (List (Text × Json))}

/-! ## Objects that can be compared -/

/-- What is assumed of some objects: no two names of an object in them are the same when the pairs
in them are joined, and the texts that their hashes are taken of are told apart by the hashes. -/
structure AreComparable (es : List (List (Text × Json))) : Prop where
  regular : ∀ e ∈ es, (Json.obj e).joinedAll.isRegular
  hashes : ∀ e ∈ es, ∀ e' ∈ es, isHashable e → isHashable e' → hash e = hash e' →
    hashedText e = hashedText e'

/-- What is read from a file is regular. -/
theorem isRegular_of_mem_recent {d : Directory} {path : String} {limit : Int} {vs : List Json}
    {v : Json} (h : recent d path limit = .ok vs) (hv : v ∈ vs) : v.isRegular := by
  unfold recent at h
  split at h
  · obtain ⟨lines, -, h⟩ := bind_eq_ok_iff.1 h
    obtain ⟨values, hvalues, h⟩ := bind_eq_ok_iff.1 h
    obtain rfl := Except.ok.inj h
    rw [List.mem_reverse, List.mem_filterMap] at hv
    obtain ⟨o, ho, rfl : o = some v⟩ := hv
    obtain ⟨line, -, hline⟩ := exists_of_mem_mapM hvalues ho
    exact (Json.fits_of_parseWithin (Text.surrogate_not_mem_ofChars line)
      (valueOf?_eq_some_iff.1 hline)).regular
  · obtain rfl := Except.ok.inj h
    simp at hv

/-- A hash commits to the object that holds it as its own. -/
theorem AreComparable.agrees (h : AreComparable es) (hx : x ∈ es) (hy : y ∈ es) (hown : HoldsOwn x)
    (hown' : HoldsOwn y) (heq : hash x = hash y) :
    Json.Agrees (Json.obj x).joinedAll (Json.obj y).joinedAll := by
  have hbody := Json.agrees_of_write_canonical_eq
    (Json.isRegular_joinedAll_erase (h.regular x hx) hashField)
    (Json.isRegular_joinedAll_erase (h.regular y hy) hashField)
    (h.hashes x hx y hy hown.hashable hown'.hashable heq)
  rw [Json.joinedAll_obj, Json.joinedAll_obj] at hbody ⊢
  refine .obj fun k => ?_
  by_cases hk : k = hashField
  · have hlow : ∀ c ∈ hashField.toList, c.toNat < 0x10000 := List.all_iff_forall_prop.1 rfl
    rw [hk, Text.ofString, Json.get?_joinedField hlow, Json.get?_joinedField hlow, ← Text.ofString,
      hown.own, hown'.own, heq]
    exact .some (.refl _)
  · have hjoined : k ≠ (Text.ofString hashField).joined := by
      rwa [Text.ofString, Text.joined_ofChars]
    rw [← Json.get?_joinedField_erase x hjoined, ← Json.get?_joinedField_erase y hjoined]
    exact Json.agrees_obj_iff.1 hbody k

/-- Objects that agree follow objects with the same hash. -/
theorem hash_eq_of_follows {x' y' : List (Text × Json)}
    (h : Json.Agrees (Json.obj x).joinedAll (Json.obj y).joinedAll) (hx : Follows x' x)
    (hy : Follows y' y) : hash x' = hash y' := by
  have hlow : ∀ c ∈ previousField.toList, c.toNat < 0x10000 := List.all_iff_forall_prop.1 rfl
  have hhash : ∀ s : String, (Json.str (Text.ofString s)).joinedAll = .str (Text.ofString s) := by
    intro s
    rw [Json.joinedAll, Text.ofString, Text.joined_ofChars]
  rw [Json.joinedAll_obj, Json.joinedAll_obj] at h
  have hprevious := Json.agrees_obj_iff.1 h previousField
  rw [Text.ofString, Json.get?_joinedField hlow, Json.get?_joinedField hlow, ← Text.ofString, hx,
    hy, Option.map_some, Option.map_some, hhash, hhash] at hprevious
  cases hprevious with
  | some hagrees => exact Text.ofString_injective (Json.agrees_str_iff.1 hagrees)

/-! ## Logs with the same last hash -/

/-- Whether the last of some objects agree with others, one by one. -/
def EndsWith (xs ys : List (List (Text × Json))) : Prop :=
  ∃ older newer, xs = older ++ newer ∧
    List.Forall₂ (fun x y => Json.Agrees (.obj x) (.obj y)) newer ys

/-- Whether the last of some objects agree with others, one by one, when the pairs in them are
joined. -/
def EndsLike (xs ys : List (List (Text × Json))) : Prop :=
  ∃ older newer, xs = older ++ newer ∧
    List.Forall₂ (fun x y => Json.Agrees (Json.obj x).joinedAll (Json.obj y).joinedAll) newer ys

/-- Where no pairs are left to be joined, the entries themselves agree. -/
theorem endsLike_iff_of_isRegular (hx : ∀ x ∈ xs, (Json.obj x).isRegular)
    (hy : ∀ y ∈ ys, (Json.obj y).isRegular) : EndsLike xs ys ↔ EndsWith xs ys := by
  refine exists_congr fun older => exists_congr fun newer => and_congr_right fun heq => ?_
  have hnewer : ∀ x ∈ newer, (Json.obj x).joinedAll = .obj x := fun x hmem =>
    Json.joinedAll_of_isRegular (hx x (heq ▸ List.mem_append_right older hmem))
  have hall : ∀ y ∈ ys, (Json.obj y).joinedAll = .obj y := fun y hmem =>
    Json.joinedAll_of_isRegular (hy y hmem)
  constructor
  · intro h
    refine List.forall₂_iff_get.2 ⟨h.length_eq, fun i hi hi' => ?_⟩
    have hi := h.get hi hi'
    rwa [hnewer _ (List.get_mem ..), hall _ (List.get_mem ..)] at hi
  · intro h
    refine List.forall₂_iff_get.2 ⟨h.length_eq, fun i hi hi' => ?_⟩
    rw [hnewer _ (List.get_mem ..), hall _ (List.get_mem ..)]
    exact h.get hi hi'

/-- The last of some objects ends them. -/
theorem endsLike_singleton (xs : List (List (Text × Json)))
    (h : Json.Agrees (Json.obj x).joinedAll (Json.obj y).joinedAll) : EndsLike (xs ++ [x]) [y] :=
  ⟨xs, [x], rfl, .cons h .nil⟩

/-- One more object on both sides, if the two agree. -/
theorem EndsLike.concat (h : EndsLike xs ys)
    (hxy : Json.Agrees (Json.obj x).joinedAll (Json.obj y).joinedAll) :
    EndsLike (xs ++ [x]) (ys ++ [y]) := by
  obtain ⟨older, newer, rfl, hnewer⟩ := h
  exact ⟨older, newer ++ [x], List.append_assoc .., List.rel_append hnewer (.cons hxy .nil)⟩

/-- A log stands the check with one more object if it does without, and the object holds its own
hash and names the last one. -/
theorem verify_concat_iff : verify ((xs ++ [x]).map .obj) = .ok true ↔
    verify (xs.map .obj) = .ok true ∧ HoldsOwn x ∧ ∀ x' ∈ xs.getLast?, Follows x' x := by
  rw [verify_iff, verify_iff, List.forall_mem_append, List.forall_mem_singleton,
    List.isChain_append]
  simp only [List.isChain_singleton, List.head?_cons, Option.mem_def, Option.some.injEq,
    forall_eq', true_and]
  tauto

/-- Going back from a hash that two logs have last, they agree until one of them ends. -/
theorem AreComparable.endsLike (h : AreComparable es)
    (hxs : verify ((xs ++ [x]).map .obj) = .ok true)
    (hys : verify ((ys ++ [y]).map .obj) = .ok true) (hmem : ∀ e ∈ xs ++ [x], e ∈ es)
    (hmem' : ∀ e ∈ ys ++ [y], e ∈ es) (heq : hash x = hash y) :
    EndsLike (xs ++ [x]) (ys ++ [y]) ∨ EndsLike (ys ++ [y]) (xs ++ [x]) := by
  induction xs using List.reverseRecOn generalizing ys x y with
  | nil =>
    obtain ⟨-, hown, -⟩ := verify_concat_iff.1 hxs
    obtain ⟨-, hown', -⟩ := verify_concat_iff.1 hys
    exact .inr
      (endsLike_singleton ys (h.agrees (hmem' y (by simp)) (hmem x (by simp)) hown' hown heq.symm))
  | append_singleton xs x' ih =>
    obtain ⟨hrest, hown, hfollows⟩ := verify_concat_iff.1 hxs
    obtain ⟨hrest', hown', hfollows'⟩ := verify_concat_iff.1 hys
    have hxy := h.agrees (hmem x (by simp)) (hmem' y (by simp)) hown hown' heq
    have hyx := h.agrees (hmem' y (by simp)) (hmem x (by simp)) hown' hown heq.symm
    rcases List.eq_nil_or_concat' ys with rfl | ⟨ys, y', rfl⟩
    · exact .inl (endsLike_singleton _ hxy)
    · -- The last objects agree, so the ones before them have the same hash.
      have heq' : hash x' = hash y' :=
        hash_eq_of_follows hxy (hfollows x' (by simp)) (hfollows' y' (by simp))
      have hbefore := ih hrest hrest' (fun e he => hmem e (List.mem_append_left _ he))
        (fun e he => hmem' e (List.mem_append_left _ he)) heq'
      exact hbefore.imp (fun hends => hends.concat hxy) fun hends => hends.concat hyx

/-- **The last hash.** Of two logs that stand the check and whose last entries hold the same hash,
one ends with entries that agree with those of the other, the pairs in them joined. A log that
differs in another way from one that stands the check, and holds the same hash last, does not stand
it. Where there are no pairs to be joined, the entries themselves agree. -/
theorem last_hash_commits (h : AreComparable (xs ++ ys)) (hx : xs ≠ []) (hy : ys ≠ [])
    (hxs : verify (xs.map .obj) = .ok true)
    (hlast : Assoc.get? (xs.getLast hx) hashField = Assoc.get? (ys.getLast hy) hashField) :
    (verify (ys.map .obj) = .ok true → EndsLike xs ys ∨ EndsLike ys xs) ∧
      (¬ EndsLike xs ys → ¬ EndsLike ys xs → verify (ys.map .obj) ≠ .ok true) ∧
      ((∀ e ∈ xs ++ ys, (Json.obj e).isRegular) →
        (EndsLike xs ys ↔ EndsWith xs ys) ∧ (EndsLike ys xs ↔ EndsWith ys xs)) := by
  have hends : verify (ys.map .obj) = .ok true → EndsLike xs ys ∨ EndsLike ys xs := by
    intro hys
    rw [← List.dropLast_append_getLast hx] at hxs ⊢
    rw [← List.dropLast_append_getLast hy] at hys ⊢
    have hown : HoldsOwn (xs.getLast hx) := (verify_concat_iff.1 hxs).2.1
    have hown' : HoldsOwn (ys.getLast hy) := (verify_concat_iff.1 hys).2.1
    rw [hown.own, hown'.own, Option.some.injEq, Json.str.injEq] at hlast
    refine h.endsLike hxs hys (fun e he => ?_) (fun e he => ?_) (Text.ofString_injective hlast)
    · rw [List.dropLast_append_getLast hx] at he
      exact List.mem_append_left _ he
    · rw [List.dropLast_append_getLast hy] at he
      exact List.mem_append_right _ he
  refine ⟨hends, fun hxy hyx hys => (hends hys).elim hxy hyx, fun hregular => ?_⟩
  rw [List.forall_mem_append] at hregular
  exact ⟨endsLike_iff_of_isRegular hregular.1 hregular.2,
    endsLike_iff_of_isRegular hregular.2 hregular.1⟩

/-! ### A sample -/

/-- An entry of which nothing is told but the solver. -/
def sampleOlder : List (Text × Json) :=
  [("solver", .str "glucose4"), (Text.ofString hashField, .str "f83fb506c0e9082f")]

/-- What is hashed of an entry after it. -/
def sampleBody : List (Text × Json) :=
  [("elapsed_ms", .float (Binary64.ofDecimal false 25 (-1))),
    (Text.ofString previousField, .str "f83fb506c0e9082f")]

/-- The entry after it. -/
def sampleNewer : List (Text × Json) :=
  sampleBody ++ [(Text.ofString hashField, .str "9ccf03bb0d49fce2")]

/-- What is hashed is the text of the fields in the order of their names. -/
theorem hashedText_eq {sorted : List (Text × Json)}
    (hperm : (Json.canonicalFields (Assoc.erase x hashField)).Perm sorted)
    (hnodup : (sorted.map (·.1)).Nodup) (hsorted : sorted.Pairwise fun f g => Text.le f.1 g.1) :
    hashedText x = Json.write (.obj sorted) := by
  rw [hashedText, Json.canonical,
    Json.sortFields_eq hperm ((hperm.map _).nodup_iff.2 hnodup) hsorted]

theorem hash_sampleOlder : hash sampleOlder = "f83fb506c0e9082f" := by
  rw [hash, hashedText_eq (List.Perm.refl _) (by decide) (by decide)]
  decide +kernel

theorem hashedText_sampleNewer : hashedText sampleNewer = Json.write (.obj sampleBody) :=
  hashedText_eq (List.Perm.refl sampleBody) (by decide) (by decide)

/-- The order of the fields does not show in what is hashed. -/
theorem hashedText_reverse_sampleNewer : hashedText sampleNewer.reverse = hashedText sampleNewer :=
  (hashedText_eq (x := sampleNewer.reverse) (List.reverse_perm sampleBody) (by decide)
    (by decide)).trans hashedText_sampleNewer.symm

theorem hash_sampleNewer : hash sampleNewer = "9ccf03bb0d49fce2" := by
  rw [hash, hashedText_sampleNewer]
  decide +kernel

/-- The two hashes differ, so what is hashed is told apart by them. -/
theorem areComparable_sample :
    AreComparable ([sampleOlder, sampleNewer] ++ [sampleNewer.reverse]) := by
  have hne : hash sampleOlder ≠ hash sampleNewer := by
    rw [hash_sampleOlder, hash_sampleNewer]
    decide
  have hhashes : ∀ {a b c : List (Text × Json)}, hash a ≠ hash b → hashedText c = hashedText b →
      ∀ e ∈ [a, b, c], ∀ e' ∈ [a, b, c], isHashable e → isHashable e' → hash e = hash e' →
        hashedText e = hashedText e' := by
    intro a b c hab hcb
    have hhash : hash c = hash b := by rw [hash, hash, hcb]
    simp only [List.mem_cons, List.not_mem_nil, or_false]
    rintro e (rfl | rfl | rfl) e' (rfl | rfl | rfl) - - heq
    · rfl
    · exact absurd heq hab
    · exact absurd (heq.trans hhash) hab
    · exact absurd heq.symm hab
    · rfl
    · exact hcb.symm
    · exact absurd (heq.symm.trans hhash) hab
    · exact hcb
    · rfl
  refine ⟨?_, hhashes hne hashedText_reverse_sampleNewer⟩
  simp only [List.cons_append, List.nil_append, List.forall_mem_cons]
  exact ⟨rfl, rfl, rfl, by simp⟩

/-- The newer of two entries, its fields in another order, is what the two end with. -/
theorem last_hash_commits_reversed :
    EndsLike [sampleOlder, sampleNewer] [sampleNewer.reverse] ∨
      EndsLike [sampleNewer.reverse] [sampleOlder, sampleNewer] := by
  have holder : HoldsOwn sampleOlder := by
    refine ⟨by decide, ?_⟩
    rw [hash_sampleOlder]
    rfl
  have hnewer : HoldsOwn sampleNewer := by
    refine ⟨by decide, ?_⟩
    rw [hash_sampleNewer]
    rfl
  have hreverse : HoldsOwn sampleNewer.reverse := by
    refine ⟨by decide, ?_⟩
    rw [hash, hashedText_reverse_sampleNewer, ← hash, hash_sampleNewer]
    rfl
  have hfollows : Follows sampleOlder sampleNewer := by
    rw [Follows, hash_sampleOlder]
    rfl
  have hchain : List.IsChain Follows [sampleOlder, sampleNewer] :=
    List.isChain_cons_cons.2 ⟨hfollows, List.isChain_singleton _⟩
  have hverify : verify ([sampleOlder, sampleNewer].map .obj) = .ok true :=
    verify_iff.2 ⟨List.forall_mem_cons.2 ⟨holder, List.forall_mem_singleton.2 hnewer⟩, hchain⟩
  have hverify' : verify ([sampleNewer.reverse].map .obj) = .ok true :=
    verify_iff.2 ⟨List.forall_mem_singleton.2 hreverse, List.isChain_singleton _⟩
  have hlast : Assoc.get? sampleNewer hashField = Assoc.get? sampleNewer.reverse hashField := by
    rw [hnewer.own, hreverse.own, hash, hash, hashedText_reverse_sampleNewer]
  exact (last_hash_commits areComparable_sample (List.cons_ne_nil _ _)
    (List.cons_ne_nil _ _) hverify
    (by simpa only [List.getLast_cons_cons, List.getLast_singleton] using hlast)).1 hverify'

end Dialectic.Audit
