import ModelSchema.Sorting.Merge
import ModelSchema.Sorting.Run

/-!
# Sorting by merging runs

Which runs are merged when. Between two neighbouring runs lies a boundary, whose level tells how
deep it would lie in a tree of halves of the whole list: the first halving that parts the middles of
the two runs. When a new run is found, the boundaries below it that lie deeper than its own are
merged away, and at the end all others. Main statement: a sort that is not refused keeps every item.
-/

namespace ModelSchema.Sorting

variable {α ε : Type} (before : α → α → Except ε Bool)

/-- The number of halvings of a list of length `n` that part two places, given in halves of an
item. -/
def partingLevel (n a b : Nat) : Nat :=
  if _close : a < b ∧ b - a < n ∧ a / n = b / n then partingLevel n (2 * a) (2 * b) + 1 else 1
termination_by n - (b - a)
decreasing_by omega

/-- The level of the boundary between a run of length `k` from `start` on and the next run, of
length `m`. -/
def boundaryLevel (n start k m : Nat) : Nat :=
  partingLevel n (2 * start + k) (2 * start + k + k + m)

/-- The length that runs are wanted to have: that of the list, halved until it is below 64, and one
more if an item is lost by halving. -/
def wantedLength (lost n : Nat) : Nat :=
  if n < 64 then n + lost else wantedLength (max lost (n % 2)) (n / 2)
termination_by n
decreasing_by omega

/-- A run that waits to be merged and the level of the boundary behind it. -/
structure Pending (α : Type) where
  run : List α
  level : Nat

/-- Merges the last run with the runs below whose boundaries lie deeper than a level. -/
def collapse (level patience : Nat) (top : List α) :
    List (Pending α) → Except ε (List α × List (Pending α) × Nat)
  | [] => .ok (top, [], patience)
  | p :: below =>
    if level < p.level then
      match mergeRuns before patience p.run top with
      | .error e => .error e
      | .ok (merged, patience) => collapse level patience merged below
    else .ok (top, p :: below, patience)

/-- Merges all runs. The last but one is merged with that neighbour that is shorter. -/
def finish (patience : Nat) (top : List α) : List (Pending α) → Except ε (List α)
  | [] => .ok top
  | [p] => (mergeRuns before patience p.run top).map (·.1)
  | p :: q :: below =>
    if q.run.length < top.length then
      match mergeRuns before patience q.run p.run with
      | .error e => .error e
      | .ok (merged, patience) => finish patience top (⟨merged, p.level⟩ :: below)
    else
      match mergeRuns before patience p.run top with
      | .error e => .error e
      | .ok (merged, patience) => finish patience merged (q :: below)
termination_by below => below.length

/-- Finds the runs of a list of length `n` one by one and merges them as they are found. The last
one found is `top`, and it starts at `start`. -/
def schedule (n patience start : Nat) (top : List α) (below : List (Pending α)) (items : List α) :
    Except ε (List α) :=
  if _empty : items = [] then finish before patience top below
  else
    match _next : nextRun before (wantedLength 0 n) items with
    | .error e => .error e
    | .ok (run, rest) =>
      let level := boundaryLevel n start top.length run.length
      match collapse before level patience top below with
      | .error e => .error e
      | .ok (merged, below, patience) =>
        schedule n patience (start + top.length) run (⟨merged, level⟩ :: below) rest
termination_by items.length
decreasing_by exact length_rest_lt before _next _empty

/-- Sorts a list. -/
def sort (items : List α) : Except ε (List α) :=
  match nextRun before (wantedLength 0 items.length) items with
  | .error e => .error e
  | .ok (run, rest) => schedule before items.length worthwhile 0 run [] rest

/-- The items of the runs that wait to be merged. -/
def waiting (below : List (Pending α)) : List α := below.flatMap Pending.run

theorem collapse_perm {level patience : Nat} {top : List α} {below : List (Pending α)}
    {r : List α × List (Pending α) × Nat} (h : collapse before level patience top below = .ok r) :
    (r.1 ++ waiting r.2.1).Perm (top ++ waiting below) := by
  fun_induction collapse before level patience top below generalizing r with
  | case1 | case4 => rw [← Except.ok.inj h]
  | case2 => simp at h
  | case3 =>
    rename_i hm ih
    refine (ih h).trans (((mergeRuns_perm hm).append_right _).trans ?_)
    simp only [waiting, List.flatMap_cons]
    rw [← List.append_assoc]
    exact List.perm_append_comm.append_right _

theorem finish_perm {patience : Nat} {top : List α} {below : List (Pending α)} {result : List α}
    (h : finish before patience top below = .ok result) : result.Perm (top ++ waiting below) := by
  fun_induction finish before patience top below generalizing result with
  | case1 =>
    rw [← Except.ok.inj h]
    simp [waiting]
  | case2 patience top p =>
    cases hm : mergeRuns before patience p.run top with
    | error e => simp [hm, Except.map] at h
    | ok m =>
      rw [hm] at h
      rw [← Except.ok.inj h]
      simp only [waiting, List.flatMap_cons, List.flatMap_nil, List.append_nil]
      exact (mergeRuns_perm hm).trans List.perm_append_comm
  | case3 | case5 => simp at h
  | case4 =>
    rename_i hm ih
    refine (ih h).trans ?_
    simp only [waiting, List.flatMap_cons]
    rw [← List.append_assoc (Pending.run _)]
    exact (((mergeRuns_perm hm).trans List.perm_append_comm).append_right _).append_left _
  | case6 =>
    rename_i hm ih
    refine (ih h).trans (((mergeRuns_perm hm).append_right _).trans ?_)
    refine (List.perm_append_comm.append_right _).trans ?_
    rw [List.append_assoc]
    rfl

theorem schedule_perm {n patience start : Nat} {top : List α} {below : List (Pending α)}
    {items result : List α}
    (h : schedule before n patience start top below items = .ok result) :
    result.Perm (top ++ waiting below ++ items) := by
  fun_induction schedule before n patience start top below items generalizing result with
  | case1 =>
    rw [List.append_nil]
    exact finish_perm before h
  | case2 | case3 => simp at h
  | case4 =>
    rename_i top below items _ run rest hn level merged held patience hc ih
    have hheld := collapse_perm before hc
    refine (ih h).trans (((hheld.append_left run).append_right rest).trans ?_)
    refine (List.perm_append_comm.append_right rest).trans ?_
    rw [List.append_assoc]
    exact (nextRun_perm before hn).append_left _

/-- Sorting keeps every item. -/
theorem sort_perm {items sorted : List α} (h : sort before items = .ok sorted) :
    sorted.Perm items := by
  rw [sort] at h
  split at h
  · simp at h
  · rename_i run rest hn
    refine (schedule_perm before h).trans ?_
    simp only [waiting, List.flatMap_nil, List.append_nil]
    exact nextRun_perm before hn

end ModelSchema.Sorting
