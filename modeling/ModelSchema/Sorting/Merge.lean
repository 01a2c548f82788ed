import ModelSchema.Sorting.Search

/-!
# Merging two runs

Two neighbouring runs are merged from that end at which the shorter one lies. Items are compared one
by one until one side has won so many times in a row that patience is lost; from then on every round
searches how many items of a side go first, on one side and then on the other, as long as one of the
two searches is worth it. A merge hands its patience on to the next: rounds that go on take from it,
leaving them gives to it. Main statement: a merge keeps the items of both runs.
-/

namespace ModelSchema.Sorting

/-- How many items a search must find to be worth it, and the patience to begin with. -/
def worthwhile : Nat := 7

/-- How the next items of a merge are found. -/
inductive Pace where
  /-- One by one, after so many items in a row from the left or from the right side. -/
  | stepping (lefts rights : Nat)
  /-- By a search: the first of a round, or the second after the first has found so many items. -/
  | searching (opened : Option Nat)

namespace Pace

/-- The pace after an item from the left side. -/
def afterLeft (patience lefts : Nat) : Pace :=
  if patience ≤ lefts + 1 then .searching none else .stepping (lefts + 1) 0

/-- The pace after an item from the right side. -/
def afterRight (patience rights : Nat) : Pace :=
  if patience ≤ rights + 1 then .searching none else .stepping 0 (rights + 1)

/-- The pace and the patience after a search that has found so many items. -/
def afterSearch (patience found : Nat) : Option Nat → Pace × Nat
  | none => (.searching (some found), patience)
  | some opened =>
    if worthwhile ≤ opened ∨ worthwhile ≤ found then
      (.searching none, if 1 < patience then patience - 1 else patience)
    else (.stepping 0 0, patience + 1)

end Pace

/-- Whether a search is on the left side: a merge from the front opens its rounds there, a merge
from the back closes them there. -/
def searchesLeft (d : Direction) (opened : Option Nat) : Bool :=
  match d with
  | .forward => opened.isNone
  | .backward => opened.isSome

variable {α ε : Type}

/-- Puts items before those that a merge goes on with. -/
def emit (items : List α) (rest : Except ε (List α × Nat)) : Except ε (List α × Nat) :=
  rest.map fun r => (items ++ r.1, r.2)

/-- Merges two sides, where `first y x` tells whether the item `y` of the right side goes before the
item `x` of the left side. The last item of the left side is known to go last. Of the two patiences
one is that of the next comparison, the other is kept if there is none. -/
def mergeFrom (d : Direction) (first : α → α → Except ε Bool) (pace : Pace) (patience kept : Nat) :
    List α → List α → Except ε (List α × Nat)
  | x :: x' :: xs, y :: ys =>
    match pace with
    | .stepping lefts rights =>
      match first y x with
      | .error e => .error e
      | .ok true =>
        emit [y]
          (mergeFrom d first (Pace.afterRight patience rights) patience patience (x :: x' :: xs) ys)
      | .ok false =>
        emit [x]
          (mergeFrom d first (Pace.afterLeft patience lefts) patience patience (x' :: xs) (y :: ys))
    | .searching opened =>
      if searchesLeft d opened then
        match countLeading d (fun x => (first y x).map (!·)) (x :: x' :: xs) with
        | .error e => .error e
        | .ok found =>
          let (pace, next) := Pace.afterSearch patience found opened
          emit ((x :: x' :: xs).take found ++ [y])
            (mergeFrom d first pace next patience ((x :: x' :: xs).drop found) ys)
      else
        match countLeading d (fun y => first y x) (y :: ys) with
        | .error e => .error e
        | .ok found =>
          let (pace, next) := Pace.afterSearch patience found opened
          emit ((y :: ys).take found ++ [x])
            (mergeFrom d first pace next patience (x' :: xs) ((y :: ys).drop found))
  | xs, ys => .ok (ys ++ xs, kept)
termination_by xs ys => xs.length + ys.length
decreasing_by all_goals grind

/-- Merges two sides of which the right one is known to have the first item. -/
def mergeSides (d : Direction) (first : α → α → Except ε Bool) (patience : Nat) (xs : List α) :
    List α → Except ε (List α × Nat)
  | [] => .ok (xs, patience)
  | y :: ys => emit [y] (mergeFrom d first (.stepping 0 0) patience patience xs ys)

/-- Merges two runs from that end at which the shorter one lies. -/
def mergeAtShorter (before : α → α → Except ε Bool) (patience : Nat) (left right : List α) :
    Except ε (List α × Nat) :=
  if left.length ≤ right.length then mergeSides .forward before patience left right
  else
    (mergeSides .backward (fun y x => before x y) patience right.reverse left.reverse).map fun r =>
      (r.1.reverse, r.2)

/-- Merges two neighbouring runs and hands on the patience. What stands in its place already, at the
head of the first run and at the end of the second, is left there. -/
def mergeRuns (before : α → α → Except ε Bool) (patience : Nat) (a b : List α) :
    Except ε (List α × Nat) :=
  match b with
  | [] => .ok (a, patience)
  | y :: _ =>
    match countLeading .forward (fun x => (before y x).map (!·)) a with
    | .error e => .error e
    | .ok low =>
      match (a.drop low).getLast? with
      | none => .ok (a ++ b, patience)
      | some x =>
        match countLeading .backward (fun y => (before y x).map (!·)) b.reverse with
        | .error e => .error e
        | .ok high =>
          let split := b.length - high
          (mergeAtShorter before patience (a.drop low) (b.take split)).map fun r =>
            (a.take low ++ (r.1 ++ b.drop split), r.2)

theorem emit_perm {items xs ys : List α} {rest : Except ε (List α × Nat)} {r : List α × Nat}
    (h : emit items rest = .ok r) (ih : ∀ {r}, rest = .ok r → r.1.Perm (xs ++ ys)) :
    r.1.Perm (items ++ (xs ++ ys)) := by
  cases rest with
  | error e => simp [emit, Except.map] at h
  | ok r =>
    rw [← Except.ok.inj h]
    exact (ih rfl).append_left _

theorem take_append_drop_perm (found : Nat) (xs ys : List α) (y : α) :
    (xs.take found ++ [y] ++ (xs.drop found ++ ys)).Perm (xs ++ y :: ys) := by
  conv => rhs; rw [← List.take_append_drop found xs]
  rw [List.append_assoc, List.append_assoc, List.singleton_append]
  exact List.perm_middle.symm.append_left _

/-- A merge from some item on keeps the items of both sides. -/
theorem mergeFrom_perm {d : Direction} {first : α → α → Except ε Bool} {pace : Pace}
    {patience kept : Nat}
    {xs ys : List α} {r : List α × Nat} (h : mergeFrom d first pace patience kept xs ys = .ok r) :
    r.1.Perm (xs ++ ys) := by
  fun_induction mergeFrom d first pace patience kept xs ys generalizing r with
  | case1 | case4 | case6 => simp at h
  | case2 =>
    rename_i ih
    refine (emit_perm h ih).trans ?_
    rw [List.singleton_append]
    exact List.perm_middle.symm
  | case3 =>
    rename_i ih
    exact emit_perm h ih
  | case5 =>
    rename_i ih
    exact (emit_perm h ih).trans (take_append_drop_perm _ _ _ _)
  | case7 =>
    rename_i ih
    refine (emit_perm h fun hr => (ih hr).trans List.perm_append_comm).trans ?_
    exact (take_append_drop_perm _ _ _ _).trans List.perm_append_comm
  | case8 =>
    rw [← Except.ok.inj h]
    exact List.perm_append_comm

theorem mergeSides_perm {d : Direction} {first : α → α → Except ε Bool} {patience : Nat}
    {xs ys : List α}
    {r : List α × Nat} (h : mergeSides d first patience xs ys = .ok r) : r.1.Perm (xs ++ ys) := by
  cases ys with
  | nil => rw [← Except.ok.inj h, List.append_nil]
  | cons y ys =>
    refine (emit_perm h mergeFrom_perm).trans ?_
    rw [List.singleton_append]
    exact List.perm_middle.symm

theorem mergeAtShorter_perm {before : α → α → Except ε Bool} {patience : Nat} {left right : List α}
    {r : List α × Nat} (h : mergeAtShorter before patience left right = .ok r) :
    r.1.Perm (left ++ right) := by
  rw [mergeAtShorter] at h
  split at h
  · exact mergeSides_perm h
  · cases hs : mergeSides .backward (fun y x => before x y) patience right.reverse left.reverse with
    | error e => simp [hs, Except.map] at h
    | ok s =>
      rw [hs] at h
      rw [← Except.ok.inj h]
      refine (List.reverse_perm _).trans ((mergeSides_perm hs).trans ?_)
      rw [← List.reverse_append]
      exact List.reverse_perm _

/-- A merge keeps the items of both runs. -/
theorem mergeRuns_perm {before : α → α → Except ε Bool} {patience : Nat} {a b : List α}
    {r : List α × Nat}
    (h : mergeRuns before patience a b = .ok r) : r.1.Perm (a ++ b) := by
  cases b with
  | nil => rw [← Except.ok.inj h, List.append_nil]
  | cons y ys =>
    rw [mergeRuns] at h
    split at h
    · simp at h
    · rename_i low _
      split at h
      · rw [← Except.ok.inj h]
      · split at h
        · simp at h
        · rename_i high _
          simp only at h
          generalize (y :: ys).length - high = split at h
          cases hm : mergeAtShorter before patience (a.drop low) ((y :: ys).take split) with
          | error e => simp [hm, Except.map] at h
          | ok m =>
            rw [hm] at h
            rw [← Except.ok.inj h]
            conv => rhs; rw [← List.take_append_drop low a, ← List.take_append_drop split (y :: ys)]
            rw [List.append_assoc, ← List.append_assoc (a.drop low)]
            exact ((mergeAtShorter_perm hm).append_right _).append_left _

end ModelSchema.Sorting
