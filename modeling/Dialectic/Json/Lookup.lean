import Dialectic.Json.Misuse

/-!
# Finding things under values

Tables in which something is found under any value that is no list and no object. Values that are
equal are the same key: what is put under one is found under the other, and the key that came first
stays.
-/

namespace Dialectic.Json

variable {α : Type}

/-- What is found under a value. -/
def lookup? (table : List (Json × α)) (key : Json) : Option α :=
  (table.find? fun p => p.1.isSame key).map (·.2)

/-- Puts something under a value, in the place of what was found there before. -/
def enter (table : List (Json × α)) (key : Json) (value : α) : List (Json × α) :=
  if (lookup? table key).isSome then
    table.map fun p => if p.1.isSame key then (p.1, value) else p
  else table ++ [(key, value)]

/-- In an empty table nothing is found. -/
@[simp] theorem lookup?_nil (key : Json) : lookup? ([] : List (Json × α)) key = none := rfl

/-- A key that equals itself finds what was put under it. -/
theorem lookup?_enter {table : List (Json × α)} {key : Json} {value : α}
    (h : key.isSame key = true) : lookup? (enter table key value) key = some value := by
  unfold enter
  split
  · rename_i hs
    induction table with
    | nil => simp at hs
    | cons p rest ih =>
      by_cases hp : p.1.isSame key = true
      · simp [lookup?, hp]
      · simp only [lookup?, List.find?_cons, hp, List.map_cons, Bool.false_eq_true,
          if_false] at hs ih ⊢
        exact ih hs
  · rename_i hn
    have hn : table.find? (fun p => p.1.isSame key) = none := by simpa [lookup?] using hn
    simp [lookup?, List.find?_append, hn, h]

/-! ## Keys -/

/-- A value that can be looked up is looked up as it is. -/
theorem key_eq_ok_iff {v w : Json} : v.key = .ok w ↔ v.isKey ∧ w = v := by
  rw [Json.key]
  split
  · simp [*, eq_comm]
  · simp [*]

/-- A value under which something can be found is the same key as itself. -/
theorem isSame_self {v : Json} (h : v.isKey) : v.isSame v = true := by
  have hat : ∀ p : LinePoint, p.isAt p = true := by
    intro p
    cases p <;> simp [LinePoint.isAt, LinePoint.isBefore]
  cases v with
  | null => rfl
  | bool b => cases b <;> rfl
  | int n =>
    have hequal : isEqualNumber (.int n) (.int n) = true := hat _
    simp [isSame, isEqual, hequal]
  | float x =>
    cases x with
    | nan => rfl
    | infinite negative => cases negative <;> rfl
    | finite negative e f =>
      have hequal : isEqualNumber (.float (.finite negative e f)) (.float (.finite negative e f)) =
          true := hat _
      simp [isSame, isEqual, hequal]
  | str t => simp [isSame, isEqual]
  | arr items => cases h
  | obj fields => cases h

/-- What is found in a table is in it. -/
theorem exists_mem_of_lookup? {table : List (Json × α)} {key : Json} {value : α}
    (h : lookup? table key = some value) : ∃ p ∈ table, p.2 = value := by
  rw [lookup?, Option.map_eq_some_iff] at h
  obtain ⟨p, hp, hvalue⟩ := h
  exact ⟨p, List.mem_of_find?_eq_some hp, hvalue⟩

/-- What is in a table after something was put under a key is that, under the same key, or it was
there before. -/
theorem mem_enter {table : List (Json × α)} {key : Json} {value : α} (hkey : key.isKey)
    {p : Json × α} (h : p ∈ enter table key value) : p.2 = value ∧ p.1.isSame key ∨ p ∈ table := by
  rw [enter] at h
  split at h
  · obtain ⟨q, hq, rfl⟩ := List.mem_map.1 h
    by_cases hsame : q.1.isSame key
    · left
      simp [hsame]
    · right
      simpa [hsame] using hq
  · rcases List.mem_append.1 h with h | h
    · exact .inr h
    · obtain rfl := List.mem_singleton.1 h
      exact .inl ⟨rfl, isSame_self hkey⟩

end Dialectic.Json
