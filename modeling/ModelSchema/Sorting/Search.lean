/-!
# Searching from an end

How far from the head of a list a test holds, found out with few tests: at first the distance is
doubled until the test fails, then the gap that is left is halved. On lists on which the test does
not hold again once it has failed this is the number of items up to the first failure.
-/

namespace ModelSchema.Sorting

/-- The end that a search starts at. What is searched from its back is given in reverse. -/
inductive Direction where
  | forward | backward
  deriving DecidableEq

/-- The place in the middle of a gap. Of two places in the middle it is the one that stands further
to the back of the list as it is before it is reversed. -/
def Direction.middle (d : Direction) (low high : Nat) : Nat :=
  match d with
  | .forward => (low + high) / 2
  | .backward => (low + high - 1) / 2

variable {α ε : Type}

/-- Halves the gap in which the test begins to fail. -/
def halveGap (d : Direction) (test : α → Except ε Bool) (items : List α) (low high : Nat) :
    Except ε Nat :=
  if _gap : low < high then
    match items[d.middle low high]? with
    | none => .ok low
    | some x => match test x with
      | .error e => .error e
      | .ok true => halveGap d test items (d.middle low high + 1) high
      | .ok false => halveGap d test items low (d.middle low high)
  else .ok low
termination_by high - low
decreasing_by all_goals cases d <;> simp only [Direction.middle] <;> omega

/-- Doubles the distance behind the last item that is known to pass the test. -/
def doubleDistance (d : Direction) (test : α → Except ε Bool) (items : List α) (last : Nat) :
    Except ε Nat :=
  match _inside : items[2 * last + 1]? with
  | none => halveGap d test items (last + 1) items.length
  | some x => match test x with
    | .error e => .error e
    | .ok true => doubleDistance d test items (2 * last + 1)
    | .ok false => halveGap d test items (last + 1) (2 * last + 1)
termination_by items.length - last
decreasing_by
  have := (List.getElem?_eq_some_iff.mp _inside).1
  omega

/-- The number of items at the head of a list that pass a test. -/
def countLeading (d : Direction) (test : α → Except ε Bool) : List α → Except ε Nat
  | [] => .ok 0
  | x :: rest => match test x with
    | .error e => .error e
    | .ok true => doubleDistance d test (x :: rest) 0
    | .ok false => .ok 0

end ModelSchema.Sorting
