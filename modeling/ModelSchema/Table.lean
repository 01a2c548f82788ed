/-!
# Tables

A table is a list of rows with distinct keys, in the order in which the keys were first put in.
Putting a key that is there already replaces the value and leaves the row, with the key it has, in
its place. Main statements: how `put` acts on the keys and on what is found.
-/

namespace ModelSchema.Table

variable {κ α : Type} [BEq κ]

/-- The value under a key. -/
def find? (key : κ) : List (κ × α) → Option α
  | [] => none
  | (k, v) :: rest => if k == key then some v else find? key rest

/-- Puts a value under a key. -/
def put (key : κ) (value : α) : List (κ × α) → List (κ × α)
  | [] => [(key, value)]
  | (k, v) :: rest => if k == key then (k, value) :: rest else (k, v) :: put key value rest

/-- Whether a row has the key. -/
def hasKey (key : κ) (table : List (κ × α)) : Bool := table.any fun row => row.1 == key

/-- Puts the rows of the second table into the first, in order. -/
def merge (table rows : List (κ × α)) : List (κ × α) :=
  rows.foldl (fun table row => put row.1 row.2 table) table

/-- The table of a list of rows whose keys may repeat. -/
def ofRows (rows : List (κ × α)) : List (κ × α) := merge [] rows

theorem hasKey_eq_isSome_find? (key : κ) (table : List (κ × α)) :
    hasKey key table = (find? key table).isSome := by
  induction table with
  | nil => rfl
  | cons row rest ih =>
    obtain ⟨k, v⟩ := row
    simp only [hasKey, List.any_cons, find?]
    split <;> simp_all [hasKey]

theorem map_fst_put (key : κ) (value : α) (table : List (κ × α)) :
    (put key value table).map Prod.fst =
      if hasKey key table then table.map Prod.fst else table.map Prod.fst ++ [key] := by
  induction table with
  | nil => simp [put, hasKey]
  | cons row rest ih =>
    obtain ⟨k, v⟩ := row
    simp only [hasKey] at ih
    cases hk : k == key
    · cases hr : rest.any fun row => row.fst == key <;> simp [put, hasKey, hk, hr, ih]
    · simp [put, hasKey, hk]

theorem put_of_not_hasKey {key : κ} {value : α} {table : List (κ × α)}
    (h : hasKey key table = false) :
    put key value table = table ++ [(key, value)] := by
  induction table with
  | nil => rfl
  | cons row rest ih =>
    obtain ⟨k, v⟩ := row
    simp only [hasKey, List.any_cons, Bool.or_eq_false_iff] at h
    simp [put, h.1, ih h.2]

end ModelSchema.Table
