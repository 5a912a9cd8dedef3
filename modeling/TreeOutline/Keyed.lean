/-!
Lists of pairs sorted by key, each key once. The members of a JSON object and the entries of a
directory are kept so: what was put in last is found (`lookup_insert`), and the rest stays.
-/

namespace TreeOutline.Keyed

variable {α : Type}

/-- Puts a pair into a sorted list, in place of an earlier one of the same key. -/
def insert (key : String) (value : α) : List (String × α) → List (String × α)
  | [] => [(key, value)]
  | (k, v) :: rest =>
    if key = k then (key, value) :: rest
    else if key < k then (key, value) :: (k, v) :: rest
    else (k, v) :: insert key value rest

def erase (key : String) (pairs : List (String × α)) : List (String × α) :=
  pairs.filter fun pair => pair.1 ≠ key

def ofList (pairs : List (String × α)) : List (String × α) :=
  pairs.foldl (fun sorted (key, value) => insert key value sorted) []

theorem lookup_insert (key : String) (value : α) (pairs : List (String × α)) :
    (insert key value pairs).lookup key = some value := by
  induction pairs with
  | nil => simp [insert]
  | cons m rest ih =>
    obtain ⟨k, v⟩ := m
    unfold insert
    split
    · simp
    · next h =>
      split
      · simp
      · simp [List.lookup_cons, beq_eq_false_iff_ne.2 h, ih]

theorem lookup_insert_of_ne {key other : String} (h : other ≠ key) (value : α)
    (pairs : List (String × α)) : (insert key value pairs).lookup other = pairs.lookup other := by
  induction pairs with
  | nil => simp [insert, List.lookup_cons, beq_eq_false_iff_ne.2 h]
  | cons m rest ih =>
    obtain ⟨k, v⟩ := m
    unfold insert
    split
    · next hk => subst hk; simp [List.lookup_cons, beq_eq_false_iff_ne.2 h]
    · split
      · simp [List.lookup_cons, beq_eq_false_iff_ne.2 h]
      · simp [List.lookup_cons, ih]

theorem lookup_foldl_insert (key : String) (pairs sorted : List (String × α)) :
    (pairs.foldl (fun sorted (k, v) => insert k v sorted) sorted).lookup key =
      (pairs.reverse.lookup key).or (sorted.lookup key) := by
  induction pairs generalizing sorted with
  | nil => simp
  | cons m rest ih =>
    obtain ⟨k, v⟩ := m
    rw [List.foldl_cons, ih, List.reverse_cons, List.lookup_append]
    by_cases h : key = k
    · subst h
      rw [lookup_insert]
      cases rest.reverse.lookup key <;> simp
    · rw [lookup_insert_of_ne h]
      simp [List.lookup_cons, beq_eq_false_iff_ne.2 h]

/-- Of several values for one key, the last one is found. -/
theorem lookup_ofList (key : String) (pairs : List (String × α)) :
    (ofList pairs).lookup key = pairs.reverse.lookup key := by
  rw [ofList, lookup_foldl_insert]
  simp

end TreeOutline.Keyed
