/-!
# Runs

A list that is to be sorted is cut into runs: stretches that rise already, or that fall and are
turned round. A run that is shorter than wanted is made longer by inserting the next items into it,
each by halving. The comparison of two items may be refused, or may say of two different items that
neither comes before the other. Where such items end up depends on which items are compared, so the
order of the comparisons is part of the result. Main statement: a run and what is left behind it
hold the items of the list.
-/

namespace ModelSchema.Sorting

variable {α ε : Type} (before : α → α → Except ε Bool)

/-- Inserts an item into a sorted list: before the middle item or behind it, and so on in that
half. -/
def insertHalving (x : α) (sorted : List α) : Except ε (List α) :=
  match _drop : sorted.drop (sorted.length / 2) with
  | [] => .ok [x]
  | middle :: right =>
    match before x middle with
    | .error e => .error e
    | .ok true => (insertHalving x (sorted.take (sorted.length / 2))).map (· ++ middle :: right)
    | .ok false => (insertHalving x right).map (sorted.take (sorted.length / 2) ++ middle :: ·)
termination_by sorted.length
decreasing_by
  all_goals
    have hd := congrArg List.length _drop
    grind

/-- The items that go on from the given one as long as an item comes before its neighbour, or as
long as it does not, and what follows them. -/
def runFrom (falling : Bool) (a : α) : List α → Except ε (List α × List α)
  | [] => .ok ([], [])
  | b :: rest =>
    match before b a with
    | .error e => .error e
    | .ok falls =>
      if falls = falling then (runFrom falling b rest).map fun (run, others) => (b :: run, others)
      else .ok ([], b :: rest)

/-- Inserts items one by one. -/
def insertAll : List α → List α → Except ε (List α)
  | [], sorted => .ok sorted
  | x :: others, sorted => (insertHalving before x sorted).bind (insertAll others)

/-- The run at the head of a list, of `wanted` items at least if there are so many, and what follows
it. -/
def nextRun (wanted : Nat) : List α → Except ε (List α × List α)
  | a :: b :: rest =>
    match before b a with
    | .error e => .error e
    | .ok falling =>
      match runFrom before falling b rest with
      | .error e => .error e
      | .ok (run, others) =>
        let found := if falling then (a :: b :: run).reverse else a :: b :: run
        let missing := wanted - found.length
        (insertAll before (others.take missing) found).map (·, others.drop missing)
  | items => .ok (items, [])

theorem insertHalving_perm {x : α} {sorted result : List α}
    (h : insertHalving before x sorted = .ok result) :
    result.Perm (x :: sorted) := by
  fun_induction insertHalving before x sorted generalizing result with
  | case1 sorted hdrop =>
    have hd := congrArg List.length hdrop
    simp only [List.length_drop, List.length_nil] at hd
    obtain rfl : sorted = [] := List.eq_nil_of_length_eq_zero (by omega)
    rw [← Except.ok.inj h]
  | case2 => simp at h
  | case3 sorted middle right hdrop hb ih =>
    have hw := List.take_append_drop (sorted.length / 2) sorted
    rw [hdrop] at hw
    cases hl : insertHalving before x (sorted.take (sorted.length / 2)) with
    | error e => simp [hl, Except.map] at h
    | ok left =>
      rw [hl] at h
      rw [← Except.ok.inj h]
      conv => rhs; rw [← hw]
      exact (ih hl).append_right _
  | case4 sorted middle right hdrop hb ih =>
    have hw := List.take_append_drop (sorted.length / 2) sorted
    rw [hdrop] at hw
    cases hr : insertHalving before x right with
    | error e => simp [hr, Except.map] at h
    | ok rest =>
      rw [hr] at h
      rw [← Except.ok.inj h]
      conv => rhs; rw [← hw]
      exact (((ih hr).cons middle).append_left _).trans
        (((List.Perm.swap x middle right).append_left _).trans List.perm_middle)

theorem runFrom_append {falling : Bool} {a : α} {items run others : List α}
    (h : runFrom before falling a items = .ok (run, others)) : run ++ others = items := by
  induction items generalizing a run others with
  | nil =>
    obtain ⟨rfl, rfl⟩ : [] = run ∧ [] = others := by simpa [runFrom] using h
    rfl
  | cons b rest ih =>
    rw [runFrom] at h
    split at h
    · simp at h
    · split at h
      · cases hr : runFrom before falling b rest with
        | error e => simp [hr, Except.map] at h
        | ok parts =>
          obtain ⟨rfl, rfl⟩ : b :: parts.1 = run ∧ parts.2 = others := by
            simpa [hr, Except.map] using h
          rw [List.cons_append, ih hr]
      · obtain ⟨rfl, rfl⟩ : [] = run ∧ b :: rest = others := by simpa using h
        rfl

theorem insertAll_perm {others sorted result : List α}
    (h : insertAll before others sorted = .ok result) :
    result.Perm (sorted ++ others) := by
  induction others generalizing sorted with
  | nil =>
    obtain rfl : sorted = result := Except.ok.inj h
    simp
  | cons x others ih =>
    rw [insertAll] at h
    cases hx : insertHalving before x sorted with
    | error e => simp [hx, Except.bind] at h
    | ok next =>
      rw [hx] at h
      exact (ih h).trans
        (((insertHalving_perm before hx).append_right others).trans List.perm_middle.symm)

/-- A run and what follows it are the items of the list. -/
theorem nextRun_perm {wanted : Nat} {items run rest : List α}
    (h : nextRun before wanted items = .ok (run, rest)) : (run ++ rest).Perm items := by
  match items with
  | [] | [_] =>
    obtain ⟨rfl, rfl⟩ := Prod.mk.inj (Except.ok.inj h)
    simp
  | a :: b :: tail =>
    rw [nextRun] at h
    split at h
    · simp at h
    · rename_i falling _
      split at h
      · simp at h
      · rename_i head others hrun
        simp only at h
        generalize hfound :
          (if falling then (a :: b :: head).reverse else a :: b :: head) = found at h
        generalize wanted - found.length = missing at h
        have hf : found.Perm (a :: b :: head) := by
          rw [← hfound]
          split
          · exact List.reverse_perm _
          · rfl
        cases hi : insertAll before (others.take missing) found with
        | error e => simp [hi, Except.map] at h
        | ok longer =>
          rw [hi] at h
          obtain ⟨rfl, rfl⟩ := Prod.mk.inj (Except.ok.inj h)
          rw [← runFrom_append before hrun]
          refine ((insertAll_perm before hi).append_right _).trans ?_
          rw [List.append_assoc, List.take_append_drop]
          exact hf.append_right _

/-- A run takes items from the list. -/
theorem length_rest_lt {wanted : Nat} {items run rest : List α}
    (h : nextRun before wanted items = .ok (run, rest)) (hne : items ≠ []) :
    rest.length < items.length := by
  match items with
  | [] => exact absurd rfl hne
  | [_] =>
    obtain ⟨-, rfl⟩ := Prod.mk.inj (Except.ok.inj h)
    simp
  | a :: b :: tail =>
    rw [nextRun] at h
    split at h
    · simp at h
    · split at h
      · simp at h
      · rename_i head others hrun
        simp only at h
        generalize insertAll before _ _ = longer at h
        cases longer with
        | error e => simp [Except.map] at h
        | ok longer =>
          obtain ⟨-, rfl⟩ := Prod.mk.inj (Except.ok.inj h)
          have hl := congrArg List.length (runFrom_append before hrun)
          simp only [List.length_append, List.length_drop, List.length_cons] at hl ⊢
          omega

end ModelSchema.Sorting
