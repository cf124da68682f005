/-!
# Finite maps in order of insertion

A finite map as a list of pairs. A key that gets a new value keeps its place; a new key comes last.
-/

namespace Dialectic.Assoc

variable {κ α : Type} [DecidableEq κ]

/-- The value of a key. -/
def get? (m : List (κ × α)) (key : κ) : Option α :=
  match m with
  | [] => none
  | (k, v) :: rest => if k = key then some v else get? rest key

/-- Gives a key a value. -/
def insert (m : List (κ × α)) (key : κ) (value : α) : List (κ × α) :=
  match m with
  | [] => [(key, value)]
  | (k, v) :: rest => if k = key then (k, value) :: rest else (k, v) :: insert rest key value

/-- Takes a key away. -/
def erase (m : List (κ × α)) (key : κ) : List (κ × α) := m.filter (·.1 ≠ key)

/-- The map that the pairs make one after the other: of several pairs with one key the last
counts. -/
def ofList (pairs : List (κ × α)) : List (κ × α) := pairs.foldl (fun m p => insert m p.1 p.2) []

@[simp] theorem get?_nil (key : κ) : get? ([] : List (κ × α)) key = none := rfl

/-- The value just given is the value found. -/
@[simp] theorem get?_insert_self (m : List (κ × α)) (key : κ) (value : α) :
    get? (insert m key value) key = some value := by
  induction m with
  | nil => simp [insert, get?]
  | cons p rest ih =>
    obtain ⟨k, v⟩ := p
    by_cases h : k = key
    · simp [insert, get?, h]
    · simp [insert, get?, h, ih]

/-- Giving a key a value leaves the other keys alone. -/
theorem get?_insert_of_ne (m : List (κ × α)) {key other : κ} (value : α) (h : other ≠ key) :
    get? (insert m key value) other = get? m other := by
  induction m with
  | nil => simp [insert, get?, Ne.symm h]
  | cons p rest ih =>
    obtain ⟨k, v⟩ := p
    by_cases hk : k = key
    · subst hk
      simp [insert, get?, Ne.symm h]
    · by_cases ho : k = other
      · subst ho
        simp [insert, get?, hk]
      · simp [insert, get?, hk, ho, ih]

/-- The keys after a value was given: the same, or the new one at the end. -/
theorem keys_insert (m : List (κ × α)) (key : κ) (value : α) :
    (insert m key value).map (·.1) =
      if key ∈ m.map (·.1) then m.map (·.1) else m.map (·.1) ++ [key] := by
  induction m with
  | nil => simp [insert]
  | cons p rest ih =>
    obtain ⟨k, v⟩ := p
    by_cases h : k = key
    · simp [insert, h]
    · by_cases hm : key ∈ rest.map (·.1) <;> simp_all [insert, Ne.symm h]

/-- What is in a map after a value was given was there before, or is what was given. -/
theorem mem_insert {m : List (κ × α)} {key : κ} {value : α} {p : κ × α}
    (h : p ∈ insert m key value) : p = (key, value) ∨ p ∈ m := by
  induction m with
  | nil => exact .inl (List.mem_singleton.1 h)
  | cons q rest ih =>
    obtain ⟨k, v⟩ := q
    rw [insert] at h
    split at h
    · rename_i hk
      rcases List.mem_cons.1 h with rfl | h
      · exact .inl (by rw [hk])
      · exact .inr (List.mem_cons_of_mem _ h)
    · rcases List.mem_cons.1 h with rfl | h
      · exact .inr (List.mem_cons_self ..)
      · exact (ih h).imp_right (List.mem_cons_of_mem _)

/-- A map never has a key twice. -/
theorem nodup_keys_insert {m : List (κ × α)} (h : (m.map (·.1)).Nodup) (key : κ) (value : α) :
    ((insert m key value).map (·.1)).Nodup := by
  rw [keys_insert]
  split
  · exact h
  · rename_i hm
    rw [List.nodup_append]
    refine ⟨h, by simp, fun k hk l hl => ?_⟩
    obtain rfl : l = key := by simpa using hl
    rintro rfl
    exact hm hk

/-- A table has every key once. -/
theorem nodup_keys_ofList (pairs : List (κ × α)) : ((ofList pairs).map (·.1)).Nodup := by
  suffices ∀ m : List (κ × α), (m.map (·.1)).Nodup →
      ((pairs.foldl (fun m p => insert m p.1 p.2) m).map (·.1)).Nodup from this [] (by simp)
  induction pairs with
  | nil => exact fun m h => h
  | cons p rest ih => exact fun m h => ih _ (nodup_keys_insert h p.1 p.2)

end Dialectic.Assoc
