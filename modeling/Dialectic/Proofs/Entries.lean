import Dialectic.Audit.Log
import Dialectic.Proofs.Canonical
import Dialectic.Proofs.Objects
import Mathlib.Data.List.Chain
import Mathlib.Data.List.Nodup

/-!
# Entries of the audit log

An entry is read from its line with the pairs in its texts joined, which changes neither its text
nor its hash (`hash_joinedFields`). Objects stand the check if each of them holds its own hash and
names the hash of the one before it (`verify_iff`), and entries that are read back hold their own
(`verify_joinedFields_iff`).
-/

namespace Dialectic

/-! ## Objects with pairs joined -/

namespace Json

/-- A field is found where it was, its value with the pairs joined. -/
theorem get?_joinedFields (fields : List (Text × Json)) (key : Text) :
    Assoc.get? (joinedFields fields) key = (Assoc.get? fields key).map joined := by
  induction fields with
  | nil => rfl
  | cons f fields ih =>
    obtain ⟨k, v⟩ := f
    simp only [joinedFields, List.map_cons, Assoc.get?] at ih ⊢
    split
    · rfl
    · exact ih

/-- A field may as well be taken away before the pairs are joined. -/
theorem erase_joinedFields (fields : List (Text × Json)) (key : Text) :
    Assoc.erase (joinedFields fields) key = joinedFields (Assoc.erase fields key) := by
  rw [Assoc.erase, joinedFields, List.filter_map]
  rfl

/-- The canonical form may as well be taken before. -/
theorem canonicalFields_joinedFields (fields : List (Text × Json)) :
    canonicalFields (joinedFields fields) = joinedFields (canonicalFields fields) := by
  have hv : ∀ v : Json, canonical v.joined = (canonical v).joined := by
    intro v
    cases v <;> rfl
  simp only [canonicalFields_eq_map, joinedFields, List.map_map, Function.comp_def, hv]

/-- So may the canonical order, which is that of the names. -/
theorem sortFields_joinedFields (fields : List (Text × Json)) :
    sortFields (joinedFields fields) = joinedFields (sortFields fields) := by
  have hle : ∀ f ∈ fields, ∀ g ∈ fields, Text.le f.1 g.1 = Text.le f.1 g.1 := fun _ _ _ _ => rfl
  exact (List.map_mergeSort (f := fun f : Text × Json => (f.1, f.2.joined))
    (s := fun f g => Text.le f.1 g.1) hle).symm

end Json

namespace Audit

open Json (joinedFields)

variable {e : List (Text × Json)} {es : List (List (Text × Json))}

/-- The hash of an object is that of the object with the pairs in its texts joined. -/
theorem hash_joinedFields (fields : List (Text × Json)) :
    hash (joinedFields fields) = hash fields := by
  rw [hash, hash, hashedText, hashedText, Json.canonical, Json.canonical, Json.erase_joinedFields,
    Json.canonicalFields_joinedFields, Json.sortFields_joinedFields, Json.write_joinedFields]

/-- Fields stay as they are exactly if none of their values has a pair. -/
theorem joinedFields_eq_self_iff : joinedFields e = e ↔ ∀ f ∈ e, f.2.joined = f.2 := by
  have hid : joinedFields e = e ↔ e.map (fun f => (f.1, f.2.joined)) = e.map id := by
    rw [List.map_id, joinedFields]
  rw [hid, List.map_inj_left]
  exact forall₂_congr fun f _ => ⟨fun h => congrArg Prod.snd h, fun h => Prod.ext rfl h⟩

/-! ## Entries -/

/-- What an entry of a log is: its fields are read as they are written, it has its own hash, and it
names a hash as that of the entry before. -/
structure IsEntry (e : List (Text × Json)) : Prop where
  legible : Json.AreLegible e
  nodup : (e.map (·.1)).Nodup
  own : Assoc.get? e hashField = some (.str (hash e))
  link : ∃ h : String, Assoc.get? e previousField = some (.str h)

/-- Whether an entry names the hash of another one as that of the entry before. -/
def Follows (before e : List (Text × Json)) : Prop :=
  Assoc.get? e previousField = some (.str (hash before))

/-! ## Checking -/

/-- A field holds a text if it is found with it. -/
theorem holds_iff {name s : String} : holds e name s ↔ Assoc.get? e name = some (.str s) := by
  rw [holds]
  cases Assoc.get? e name with
  | none => simp
  | some v =>
    cases v with
    | str t => simp
    | _ => simp

/-- Whether an object has a hash and holds it. -/
structure HoldsOwn (e : List (Text × Json)) : Prop where
  hashable : isHashable e
  own : Assoc.get? e hashField = some (.str (hash e))

/-- Objects stand the check, after what is given, exactly if the first of them has a hash and holds
it, names what is given, and the others stand the check after it. -/
theorem verifyAfter_cons_iff {before : Option String} {rest : List Json} :
    verifyAfter before (.obj e :: rest) = .ok true ↔
      HoldsOwn e ∧ (∀ b ∈ before, Assoc.get? e previousField = some (.str b)) ∧
        verifyAfter (some (hash e)) rest = .ok true := by
  rw [verifyAfter]
  by_cases hhashable : isHashable e
  · have hown : HoldsOwn e ↔ holds e hashField (hash e) :=
      ⟨fun h => holds_iff.2 h.own, fun h => ⟨hhashable, holds_iff.1 h⟩⟩
    rw [takeHash_of_isHashable hhashable, hown]
    by_cases hholds : holds e hashField (hash e)
    · cases before with
      | none => simp [hholds]
      | some b => by_cases hb : holds e previousField b <;> simp [hholds, hb, ← holds_iff]
    · simp [hholds]
  · obtain ⟨err, herr⟩ := exists_takeHash_eq_error hhashable
    rw [herr]
    exact iff_of_false (by simp) fun h => hhashable h.1.hashable

/-- Entries stand the check after an entry if they have their own hashes and follow each other. -/
theorem verifyAfter_iff (before : List (Text × Json)) :
    verifyAfter (some (hash before)) (es.map .obj) = .ok true ↔
      (∀ e ∈ es, HoldsOwn e) ∧ List.IsChain Follows (before :: es) := by
  induction es generalizing before with
  | nil => simp [verifyAfter]
  | cons e es ih =>
    rw [List.map_cons, verifyAfter_cons_iff, ih e, List.isChain_cons_cons,
      List.forall_mem_cons, Follows]
    simp only [Option.mem_def, Option.some.injEq, forall_eq']
    tauto

/-- **Checking.** Objects stand the check exactly if each of them has a hash and holds it, and every
one after the first follows the one before it. -/
theorem verify_iff :
    verify (es.map .obj) = .ok true ↔ (∀ e ∈ es, HoldsOwn e) ∧ es.IsChain Follows := by
  cases es with
  | nil => simp [verify, verifyAfter]
  | cons e es =>
    rw [verify, List.map_cons, verifyAfter_cons_iff, verifyAfter_iff, List.forall_mem_cons]
    simp [and_assoc]

/-- An object has a hash exactly if the value of every field but the one that holds the hash can be
written. -/
theorem isHashable_iff :
    isHashable e ↔ ∀ f ∈ Assoc.erase e hashField, f.2.isWritableWithin (hashDepth - 1) := by
  have hdepth : (Json.obj (Assoc.erase e hashField)).depth ≤ hashDepth ↔ _ :=
    Json.depth_obj_le (n := hashDepth - 1)
  simp only [isHashable, Json.isWritableWithin, Bool.and_eq_true, decide_eq_true_iff,
    Json.isWritable_obj, hdepth, forall_and]

/-- The fields of an entry can be written, also with the pairs in its texts joined. -/
theorem IsEntry.isHashable_joinedFields (h : IsEntry e) : isHashable (joinedFields e) := by
  rw [isHashable_iff, Json.erase_joinedFields, joinedFields, List.forall_mem_map]
  intro f hf
  obtain ⟨hfaithful, hdepth⟩ := Json.isFaithful_joined (h.legible f (List.mem_filter.1 hf).1).2
  simp [Json.isWritableWithin, hfaithful.writable, hdepth]

/-- An entry has its own hash also when it is read. -/
theorem IsEntry.holdsOwn_joinedFields (h : IsEntry e) : HoldsOwn (joinedFields e) := by
  refine ⟨h.isHashable_joinedFields, ?_⟩
  rw [hash_joinedFields, Json.get?_joinedFields, h.own]
  simp [Json.joined, Text.ofString]

/-- It follows the same entries when it is read. -/
theorem IsEntry.follows_joinedFields_iff (h : IsEntry e) (before : List (Text × Json)) :
    Follows (joinedFields before) (joinedFields e) ↔ Follows before e := by
  obtain ⟨s, hs⟩ := h.link
  rw [Follows, Follows, hash_joinedFields, Json.get?_joinedFields, hs]
  simp [Json.joined, Text.ofString]

/-- Entries that are read back stand the check exactly if every one after the first follows the one
before it. -/
theorem verify_joinedFields_iff (h : ∀ e ∈ es, IsEntry e) :
    verify (es.map fun e => .obj (joinedFields e)) = .ok true ↔ es.IsChain Follows := by
  have hmap : (es.map fun e => Json.obj (joinedFields e)) = (es.map joinedFields).map .obj := by
    rw [List.map_map]
    rfl
  rw [hmap, verify_iff, List.forall_mem_map, List.isChain_map,
    and_iff_right fun e he => (h e he).holdsOwn_joinedFields,
    List.isChain_iff_forall_rel_of_append_cons_cons,
    List.isChain_iff_forall_rel_of_append_cons_cons]
  refine forall₄_congr fun before e a b => forall_congr' fun hsplit => ?_
  exact (h e (by simp [hsplit])).follows_joinedFields_iff before

/-! ## Chains -/

/-- The hash of the last of some entries; `genesis` if there is none. -/
def headOf (es : List (List (Text × Json))) : String := (es.getLast?.map hash).getD genesis

/-- Whether entries are a chain from its beginning. -/
structure IsChained (es : List (List (Text × Json))) : Prop where
  follows : es.IsChain Follows
  first : ∀ e ∈ es.head?, Assoc.get? e previousField = some (.str genesis)

theorem isChained_nil : IsChained [] := ⟨List.isChain_nil, by simp⟩

/-- A chain goes on with an entry that names the hash of its last one. -/
theorem IsChained.concat (h : IsChained es)
    (he : Assoc.get? e previousField = some (.str (headOf es))) : IsChained (es ++ [e]) := by
  refine ⟨List.isChain_append.2 ⟨h.follows, List.isChain_singleton e, ?_⟩, ?_⟩
  · intro x hx y hy
    obtain rfl : e = y := by simpa using hy
    rw [Follows, he, headOf, Option.mem_def.1 hx, Option.map_some, Option.getD_some]
  · cases es with
    | nil =>
      intro y hy
      obtain rfl : e = y := by simpa using hy
      exact he
    | cons x es => exact h.first

/-! ## What is logged of a query -/

/-- Whether a value has no parts, and is read back if it is a floating-point number. -/
def isArgument : Json → Bool
  | .float x => Json.readsBack x
  | .arr _ => false
  | .obj _ => false
  | _ => true

/-- A query can bring any value without parts, since every floating-point number is read back. -/
theorem isArgument_iff {v : Json} : isArgument v ↔ v.hasParts = false := by
  cases v with
  | float x => exact ⟨fun _ => rfl, fun _ => Json.readsBack_eq_true x⟩
  | _ => simp [isArgument, Json.hasParts]

/-- An argument whose integers can be written can be read again. -/
theorem isLegible_of_isArgument {v : Json} (h : isArgument v) (hsize : v.isWritable) :
    v.isLegible :=
  Json.isLegible_iff.2 ⟨isArgument_iff.1 h, hsize⟩

/-- An argument has nothing to be put in order. -/
theorem canonical_of_isArgument {v : Json} (h : isArgument v) : Json.canonical v = v := by
  cases v with
  | arr items => exact absurd h Bool.false_ne_true
  | obj fields => exact absurd h Bool.false_ne_true
  | _ => rfl

namespace Query

/-- The values that a query brings. -/
def values (q : Query) : List Json :=
  [q.requestId, q.semantics, q.frameworkHash, q.numArguments, q.numAttacks, q.numLabellings,
   q.elapsed, q.solver, q.skippedLines]

variable {q : Query} {time : Instant} {previous : Json}

/-- The names of the fields of an entry before its hash. -/
def names : List String :=
  ["timestamp", "request_id", "semantics", "framework_hash", "num_arguments", "num_attacks",
   "num_labellings", "elapsed_ms", "solver", "skipped_lines", previousField]

theorem names_fields : (q.fields time previous).map (·.1) = names.map Text.ofString := rfl

theorem names_entry :
    (q.entry time previous).map (·.1) = (names ++ [hashField]).map Text.ofString := rfl

/-- No two fields of an entry have the same name. -/
theorem nodup_names_entry : ((q.entry time previous).map (·.1)).Nodup := by
  rw [names_entry]
  exact List.Nodup.map (fun _ _ => Text.ofString_injective) (by decide)

/-- An entry names the hash before it. -/
theorem get?_previous_entry : Assoc.get? (q.entry time previous) previousField = some previous :=
  (Assoc.get?_eq_some_iff nodup_names_entry).2 (by simp [entry, fields])

/-- The hash of an entry is that of the fields before it. -/
theorem hash_entry : hash (q.entry time previous) = hash (q.fields time previous) := by
  have herase : Assoc.erase (q.entry time previous) hashField =
      Assoc.erase (q.fields time previous) hashField := by
    simp [entry, Assoc.erase]
  rw [hash, hash, hashedText, hashedText, herase]

/-- It holds its own hash. -/
theorem get?_hash_entry :
    Assoc.get? (q.entry time previous) hashField = some (.str (hash (q.entry time previous))) := by
  rw [hash_entry]
  exact (Assoc.get?_eq_some_iff nodup_names_entry).2 (by simp [entry])

/-- What holds of texts holds of all that is hashed of a query if it holds of the values that the
query brings and of the hash before. -/
theorem forall_mem_fields_iff {P : Json → Prop} (htext : ∀ s : String, P (.str s)) :
    (∀ f ∈ q.fields time previous, P f.2) ↔ (∀ v ∈ q.values, P v) ∧ P previous := by
  have hmap : (q.fields time previous).map (·.2) = .str time.text :: (q.values ++ [previous]) := rfl
  rw [← List.forall_mem_map (f := fun f : Text × Json => f.2) (P := P), hmap, List.forall_mem_cons,
    List.forall_mem_append, List.forall_mem_singleton, and_iff_right (htext _)]

/-- What holds of all texts holds of the values of an entry if it holds of those of the query. -/
theorem forall_mem_entry_iff {P : Json → Prop} (htext : ∀ s : String, P (.str s)) :
    (∀ f ∈ q.entry time previous, P f.2) ↔ (∀ v ∈ q.values, P v) ∧ P previous := by
  rw [entry, List.forall_mem_append, forall_mem_fields_iff htext, List.forall_mem_singleton,
    and_iff_left (htext _)]

/-- What is logged of a query has a hash exactly if all values in it can be written. -/
theorem isHashable_fields_iff : isHashable (q.fields time previous) ↔
    (∀ v ∈ q.values, v.isWritableWithin (hashDepth - 1)) ∧
      previous.isWritableWithin (hashDepth - 1) := by
  have herase : Assoc.erase (q.fields time previous) hashField = q.fields time previous := rfl
  rw [isHashable_iff, herase]
  exact forall_mem_fields_iff (P := fun v => v.isWritableWithin (hashDepth - 1)) fun _ => rfl

/-- Of values without parts, as every query brings them, only integers can be too long to be
written. -/
theorem isHashable_fields_iff_isWritable (hvalues : ∀ v ∈ q.values, isArgument v) :
    isHashable (q.fields time previous) ↔
      (∀ v ∈ q.values, v.isWritable) ∧ previous.isWritableWithin (hashDepth - 1) := by
  have hwithin : ∀ v ∈ q.values, v.isWritableWithin (hashDepth - 1) ↔ v.isWritable := fun v hv => by
    simp [Json.isWritableWithin, Json.depth_eq_zero (isArgument_iff.1 (hvalues v hv))]
  rw [isHashable_fields_iff, forall₂_congr hwithin]

/-- What is read of an entry is the entry exactly if no text of the query, and none of the hash
before, has a pair. -/
theorem joinedFields_entry_eq_iff : joinedFields (q.entry time previous) = q.entry time previous ↔
    (∀ v ∈ q.values, v.joined = v) ∧ previous.joined = previous := by
  rw [joinedFields_eq_self_iff]
  exact forall_mem_entry_iff (P := fun v => v.joined = v) fun s =>
    congrArg _ (Text.joined_ofChars _)

/-- The names of the fields have no pairs to be joined. -/
theorem joined_name_entry : ∀ f ∈ q.entry time previous, f.1.joined = f.1 := by
  intro f hf
  have hname : f.1 ∈ (q.entry time previous).map (·.1) := List.mem_map_of_mem hf
  rw [names_entry, List.mem_map] at hname
  obtain ⟨name, -, heq⟩ := hname
  rw [← heq, Text.ofString, Text.joined_ofChars]

/-- What is logged of a query with values that have no parts is an entry, if it has a hash. -/
theorem isEntry {h : String} (hvalues : ∀ v ∈ q.values, isArgument v)
    (hsize : isHashable (q.fields time (.str h))) : IsEntry (q.entry time (.str h)) := by
  have hlegible : ∀ f ∈ q.entry time (.str h), f.2.isLegible := by
    refine (forall_mem_entry_iff (P := fun v => v.isLegible) fun _ => rfl).2 ⟨fun v hv => ?_, rfl⟩
    exact isLegible_of_isArgument (hvalues v hv)
      (((isHashable_fields_iff_isWritable hvalues).1 hsize).1 v hv)
  exact ⟨fun f hf => ⟨joined_name_entry f hf, hlegible f hf⟩, nodup_names_entry, get?_hash_entry, h,
    get?_previous_entry⟩

/-! ### The hashed text -/

/-- The fields of an entry before its hash, in canonical order. -/
def sorted (q : Query) (time : Instant) (previous : Json) : List (Text × Json) :=
  [("elapsed_ms", q.elapsed),
   ("framework_hash", q.frameworkHash),
   (previousField, previous),
   ("num_arguments", q.numArguments),
   ("num_attacks", q.numAttacks),
   ("num_labellings", q.numLabellings),
   ("request_id", q.requestId),
   ("semantics", q.semantics),
   ("skipped_lines", q.skippedLines),
   ("solver", q.solver),
   ("timestamp", .str time.text)]

/-- Sorting the fields loses none of them. -/
theorem perm_sorted : (q.fields time previous).Perm (q.sorted time previous) := by
  -- The two lists name the same fields, each by its place among the fields of an entry.
  have hperm : [0, 1, 2, 3, 4, 5, 6, 7, 8, 9, 10].Perm [7, 3, 10, 4, 5, 6, 1, 2, 9, 8, 0] := by
    decide
  exact hperm.map fun i => (q.fields time previous).getD i default

/-- The sorted fields ascend by name. -/
theorem pairwise_sorted : (q.sorted time previous).Pairwise fun f g => Text.le f.1 g.1 := by
  have hnames : ((q.sorted time previous).map (·.1)).Pairwise fun s t => Text.le s t := by
    have hmap : (q.sorted time previous).map (·.1) =
        ["elapsed_ms", "framework_hash", previousField, "num_arguments", "num_attacks",
          "num_labellings", "request_id",
          "semantics", "skipped_lines", "solver", "timestamp"].map Text.ofString := rfl
    rw [hmap]
    decide
  exact List.pairwise_map.1 hnames

/-- The hash of an entry is taken of its fields in canonical order. -/
theorem hash_entry_eq {h : String} (hvalues : ∀ v ∈ q.values, isArgument v) :
    hash (q.entry time (.str h)) = Digest.short (Json.write (.obj (q.sorted time (.str h)))) := by
  have herase : Assoc.erase (q.fields time (.str h)) hashField = q.fields time (.str h) := rfl
  have hvalue : ∀ f ∈ q.fields time (.str h), Json.canonical f.2 = f.2 :=
    (forall_mem_fields_iff (P := fun v => Json.canonical v = v) fun _ => rfl).2
      ⟨fun v hv => canonical_of_isArgument (hvalues v hv), rfl⟩
  have hcanonical : Json.canonicalFields (q.fields time (.str h)) = q.fields time (.str h) := by
    rw [Json.canonicalFields_eq_map, List.map_congr_left fun f hf => by rw [hvalue f hf]]
    exact List.map_id _
  have hnodup : ((q.fields time (.str h)).map (·.1)).Nodup := by
    rw [names_fields]
    exact List.Nodup.map (fun _ _ => Text.ofString_injective) (by decide)
  rw [hash_entry, hash, hashedText, herase, Json.canonical, hcanonical,
    Json.sortFields_eq perm_sorted hnodup pairwise_sorted]

end Query

end Audit

end Dialectic
