import ModelSchema.Table

/-!
# Looking up in tables

What a table holds under a key, after rows have been put behind others and after a value has been
put under a key, and the order of its keys. Keys need only be compared by an equivalence: different
keys may count as one. In a table without repetitions (`Distinct`) every row is found under its key.
-/

namespace ModelSchema.Table

variable {κ α : Type} [BEq κ] {key : κ} {value : α} {row : κ × α} {table rows others : List (κ × α)}

/-- No two rows of a table have the same key. -/
def Distinct (table : List (κ × α)) : Prop := table.Pairwise fun a b => (a.1 == b.1) = false

theorem mem_of_find? (h : find? key table = some value) :
    ∃ row ∈ table, (row.1 == key) = true ∧ row.2 = value := by
  induction table with
  | nil => simp [find?] at h
  | cons first rest ih =>
    obtain ⟨k, v⟩ := first
    rw [find?] at h
    split at h
    · exact ⟨(k, v), by simp, ‹_›, Option.some.inj h⟩
    · obtain ⟨row, hr, h⟩ := ih h
      exact ⟨row, by simp [hr], h⟩

theorem find?_eq_none_iff : find? key table = none ↔ ∀ row ∈ table, (row.1 == key) = false := by
  induction table with
  | nil => simp [find?]
  | cons first rest ih =>
    obtain ⟨k, v⟩ := first
    cases hk : k == key <;> simp [find?, hk, ih]

theorem find?_append (key : κ) (rows others : List (κ × α)) :
    find? key (rows ++ others) = (find? key rows).or (find? key others) := by
  induction rows with
  | nil => simp [find?]
  | cons first rest ih =>
    obtain ⟨k, v⟩ := first
    cases hk : k == key <;> simp [find?, hk, ih]

theorem find?_of_prefix (hp : rows <+: others) (h : find? key rows = some value) :
    find? key others = some value := by
  obtain ⟨rest, rfl⟩ := hp
  rw [find?_append, h, Option.some_or]

theorem put_cases (key : κ) (value : α) (hr : row ∈ put key value table) :
    row ∈ table ∨ row = (key, value) ∨
      ∃ old ∈ table, (old.1 == key) = true ∧ row = (old.1, value) := by
  induction table with
  | nil => simpa [put] using hr
  | cons first rest ih =>
    obtain ⟨k, v⟩ := first
    rw [put] at hr
    split at hr
    · rcases List.mem_cons.mp hr with rfl | hr
      · exact .inr (.inr ⟨(k, v), by simp, ‹_›, rfl⟩)
      · exact .inl (by simp [hr])
    · rcases List.mem_cons.mp hr with rfl | hr
      · exact .inl (by simp)
      · rcases ih hr with h | h | ⟨old, ho, h⟩
        · exact .inl (by simp [h])
        · exact .inr (.inl h)
        · exact .inr (.inr ⟨old, by simp [ho], h⟩)

theorem snd_mem_put (h : row ∈ put key value table) :
    (∃ old ∈ table, row.2 = old.2) ∨ row.2 = value := by
  rcases put_cases key value h with h | rfl | ⟨old, _, _, rfl⟩
  · exact .inl ⟨row, h, rfl⟩
  · exact .inr rfl
  · exact .inr rfl

theorem snd_mem_merge (h : row ∈ merge table rows) :
    (∃ old ∈ table, row.2 = old.2) ∨ ∃ new ∈ rows, row.2 = new.2 := by
  induction rows generalizing table with
  | nil => exact .inl ⟨row, h, rfl⟩
  | cons first rest ih =>
    have hrest : row ∈ merge (put first.1 first.2 table) rest := h
    rcases ih hrest with ⟨old, ho, hs⟩ | ⟨new, hn, hs⟩
    · rcases snd_mem_put ho with ⟨older, hm, he⟩ | he
      · exact .inl ⟨older, hm, hs.trans he⟩
      · exact .inr ⟨first, by simp, hs.trans he⟩
    · exact .inr ⟨new, by simp [hn], hs⟩

theorem fst_mem_merge (h : row ∈ merge table rows) :
    (∃ old ∈ table, row.1 = old.1) ∨ ∃ new ∈ rows, row.1 = new.1 := by
  induction rows generalizing table with
  | nil => exact .inl ⟨row, h, rfl⟩
  | cons first rest ih =>
    have hrest : row ∈ merge (put first.1 first.2 table) rest := h
    rcases ih hrest with ⟨old, ho, hs⟩ | ⟨new, hn, hs⟩
    · rcases put_cases first.1 first.2 ho with hm | rfl | ⟨older, hm, -, rfl⟩
      · exact .inl ⟨old, hm, hs⟩
      · exact .inr ⟨first, by simp, hs⟩
      · exact .inl ⟨older, hm, hs⟩
    · exact .inr ⟨new, by simp [hn], hs⟩

/-- A value that looks like the one it replaces leaves the looks of a table. -/
theorem map_put_of_find? {β : Type} {look : α → β} {old : α} (h : find? key table = some old)
    (hl : look value = look old) :
    ((put key value table).map fun row => (row.1, look row.2)) =
      table.map fun row => (row.1, look row.2) := by
  induction table with
  | nil => cases h
  | cons first rest ih =>
    obtain ⟨k, v⟩ := first
    rw [find?] at h
    rw [put]
    by_cases hk : (k == key) = true
    · rw [if_pos hk] at h ⊢
      rw [List.map_cons, List.map_cons, hl, Option.some.inj h]
    · rw [if_neg hk] at h ⊢
      rw [List.map_cons, List.map_cons, ih h]

theorem distinct_put (hd : Distinct table) : Distinct (put key value table) := by
  induction table with
  | nil => exact List.pairwise_singleton _ _
  | cons first rest ih =>
    obtain ⟨k, v⟩ := first
    rw [Distinct, List.pairwise_cons] at hd
    rw [put]
    split
    · exact List.pairwise_cons.mpr hd
    · rename_i hk
      refine List.pairwise_cons.mpr ⟨fun row hr => ?_, ih hd.2⟩
      rcases put_cases key value hr with hr | rfl | ⟨old, ho, -, rfl⟩
      · exact hd.1 row hr
      · simpa using hk
      · exact hd.1 old ho

theorem distinct_merge (hd : Distinct table) (rows : List (κ × α)) :
    Distinct (merge table rows) := by
  induction rows generalizing table with
  | nil => exact hd
  | cons first rest ih => exact ih (distinct_put hd)

theorem merge_of_distinct (hd : Distinct (table ++ rows)) : merge table rows = table ++ rows := by
  induction rows generalizing table with
  | nil => simp [merge]
  | cons first rest ih =>
    have hnew : hasKey first.1 table = false := by
      rw [hasKey_eq_isSome_find?, find?_eq_none_iff.mpr]
      · rfl
      · intro row hr
        exact (List.pairwise_append.mp hd).2.2 row hr first List.mem_cons_self
    have hm : merge table (first :: rest) = merge (put first.1 first.2 table) rest := rfl
    rw [hm, put_of_not_hasKey hnew, ih (by simpa using hd), List.append_assoc]
    rfl

theorem ofRows_eq_self (hd : Distinct rows) : ofRows rows = rows := merge_of_distinct hd

theorem distinct_ofRows (rows : List (κ × α)) : Distinct (ofRows rows) :=
  distinct_merge List.Pairwise.nil rows

section Equivalence

variable [EquivBEq κ]

theorem find?_congr {key' : κ} (h : (key == key') = true) (table : List (κ × α)) :
    find? key table = find? key' table := by
  induction table with
  | nil => rfl
  | cons first rest ih =>
    obtain ⟨k, v⟩ := first
    have hk : (k == key) = (k == key') := by
      cases hc : k == key' with
      | true => exact BEq.trans hc (BEq.symm h)
      | false =>
        cases hc' : k == key with
        | true => exact hc ▸ (BEq.trans hc' h).symm ▸ rfl
        | false => rfl
    simp only [find?, hk, ih]

theorem find?_of_mem (hd : Distinct table) (h : row ∈ table) : find? row.1 table = some row.2 := by
  induction table with
  | nil => simp at h
  | cons first rest ih =>
    obtain ⟨k, v⟩ := first
    rw [Distinct, List.pairwise_cons] at hd
    rcases List.mem_cons.mp h with rfl | h
    · simp [find?]
    · simp [find?, hd.1 row h, ih hd.2 h]

theorem find?_put (key key' : κ) (value : α) (table : List (κ × α)) :
    find? key (put key' value table) = if key' == key then some value else find? key table := by
  induction table with
  | nil => simp [put, find?]
  | cons first rest ih =>
    obtain ⟨k, v⟩ := first
    rw [put]
    split
    · rename_i hk
      rw [find?, find?]
      split
      · rw [if_pos (BEq.trans (BEq.symm hk) ‹_›)]
      · rename_i hn
        rw [if_neg fun h => hn (BEq.trans hk h)]
    · rename_i hk
      rw [find?, find?, ih]
      split
      · rename_i h
        rw [if_neg fun h' => hk (BEq.trans h (BEq.symm h'))]
      · rfl

/-- What was put in last under a key is found, and without that what was there before. -/
theorem find?_merge (key : κ) (table rows : List (κ × α)) :
    find? key (merge table rows) = (find? key rows.reverse).or (find? key table) := by
  induction rows generalizing table with
  | nil => rfl
  | cons first rest ih =>
    obtain ⟨k, v⟩ := first
    have hm : merge table ((k, v) :: rest) = merge (put k v table) rest := rfl
    rw [hm, ih, find?_put, List.reverse_cons, find?_append, Option.or_assoc]
    cases hk : k == key <;> simp [find?, hk]

theorem Distinct.reverse (hd : Distinct table) : Distinct table.reverse := by
  refine List.pairwise_reverse.mpr (hd.imp fun {a b} h => ?_)
  cases hb : b.1 == a.1 with
  | false => rfl
  | true => rw [BEq.symm hb] at h; exact h

theorem find?_ofRows_of_mem (hd : Distinct rows) (h : row ∈ rows) :
    find? row.1 (ofRows rows) = some row.2 := by
  rw [ofRows, find?_merge, find?_of_mem hd.reverse (List.mem_reverse.mpr h), Option.some_or]

theorem hasKey_eq_contains (key : κ) (table : List (κ × α)) :
    hasKey key table = (table.map Prod.fst).contains key := by
  rw [List.contains_eq_any_beq, List.any_map]
  apply congrArg (List.any table)
  funext row
  exact BEq.comm

/-- The keys of rows that are put into a table come behind those that are there, each where it came
first. -/
theorem map_fst_merge (table rows : List (κ × α)) :
    (merge table rows).map Prod.fst =
      table.map Prod.fst ++ ((rows.map Prod.fst).removeAll (table.map Prod.fst)).eraseDups := by
  induction rows generalizing table with
  | nil =>
    rw [List.map_nil, List.nil_removeAll, List.eraseDups_nil, List.append_nil]
    rfl
  | cons first rest ih =>
    obtain ⟨k, v⟩ := first
    have hm : merge table ((k, v) :: rest) = merge (put k v table) rest := rfl
    rw [hm, ih, map_fst_put, hasKey_eq_contains, List.map_cons, List.cons_removeAll]
    by_cases hk : (table.map Prod.fst).contains k = true
    · rw [if_pos hk, hk]
      rfl
    · have hnew : (table.map Prod.fst).contains k = false := by simpa using hk
      have hremoved : (rest.map Prod.fst).removeAll (table.map Prod.fst ++ [k]) =
          ((rest.map Prod.fst).removeAll (table.map Prod.fst)).filter fun b => !b == k := by
        unfold List.removeAll
        rw [List.filter_filter]
        apply List.filter_congr
        intro b _
        rw [List.elem_eq_contains, List.elem_eq_contains, List.contains_append, Bool.not_or,
          Bool.and_comm, List.contains_cons, List.contains_nil, Bool.or_false]
      rw [if_neg hk, if_pos hnew, hremoved, List.eraseDups_cons, List.append_assoc]
      rfl

/-- Of the rows that are put into a table, the last of its key is found. -/
theorem find?_merge_last (table front : List (κ × α)) {back : List (κ × α)}
    (h : ∀ row ∈ back, (row.1 == key) = false) :
    find? key (merge table (front ++ (key, value) :: back)) = some value := by
  have hback : find? key back.reverse = none :=
    find?_eq_none_iff.mpr fun row hrow => h row (List.mem_reverse.mp hrow)
  rw [find?_merge, List.reverse_append, List.reverse_cons, find?_append, find?_append, hback]
  simp [find?]

theorem find?_merge_of_mem (table : List (κ × α)) (h : row ∈ rows) :
    ∃ last ∈ rows, (last.1 == row.1) = true ∧ find? row.1 (merge table rows) = some last.2 := by
  cases hfound : find? row.1 rows.reverse with
  | none =>
    have habsent := find?_eq_none_iff.mp hfound row (List.mem_reverse.mpr h)
    rw [BEq.rfl] at habsent
    cases habsent
  | some value =>
    obtain ⟨last, hlast, hkey, rfl⟩ := mem_of_find? hfound
    refine ⟨last, List.mem_reverse.mp hlast, hkey, ?_⟩
    rw [find?_merge, hfound, Option.some_or]

theorem find?_merge_of_absent (h : ∀ row ∈ rows, (row.1 == key) = false) :
    find? key (merge table rows) = find? key table := by
  have hrows : find? key rows.reverse = none :=
    find?_eq_none_iff.mpr fun row hrow => h row (List.mem_reverse.mp hrow)
  rw [find?_merge, hrows, Option.none_or]

end Equivalence

end ModelSchema.Table
