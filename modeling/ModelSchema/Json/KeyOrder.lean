import ModelSchema.Json.Error
import ModelSchema.Number.Order
import ModelSchema.Sorting.Schedule
import ModelSchema.Value.Equality

/-!
# The order of keys

The canonical form of a mapping lists its entries in the order of their keys: texts by their
characters, numbers by their values whatever their kind, dates and times by time, tuples by their
first difference. A floating-point number that is not a number comes neither before nor after any
other; for a decimal one the comparison is refused. Main statement: no entry is lost by sorting.
-/

namespace ModelSchema.Json

def text? : Value → Option String
  | .text s => some s
  | _ => none

/-- The decimal number that a numeric key is. -/
def number? : Value → Option Number.Decimal
  | .bool b => some (.ofInt (if b then 1 else 0))
  | .int n => some (.ofInt n)
  | .float x => some (.ofBinary64 x)
  | .decimal d => some d
  | _ => none

def isDecimal : Value → Bool
  | .decimal _ => true
  | _ => false

/-- Whether a numeric key comes before another. -/
def numberBefore (a b : Value) : Except WriteError Bool :=
  match number? a, number? b with
  | some x, some y =>
    if x.isUndefined || y.isUndefined then
      if isDecimal a || isDecimal b then .error .undefinedComparison else .ok false
    else .ok (x.before y)
  | _, _ => .error .unorderedKeys

mutual

/-- Whether a key comes before another. -/
def keyBefore (a b : Value) : Except WriteError Bool :=
  match a, b with
  | .text s, .text t => .ok (s < t)
  | .bytes xs, .bytes ys => .ok (xs < ys)
  | .date d, .date e => .ok (d.number < e.number)
  | .dateTime d, .dateTime e =>
    if d.offset.isSome == e.offset.isSome then .ok (d.instant < e.instant)
    else .error .unorderedKeys
  | .tuple xs, .tuple ys => itemsBefore xs ys
  | x, y => numberBefore x y
termination_by structural a

/-- Whether a list of items comes before another, by the first items that differ. -/
def itemsBefore (as bs : List Value) : Except WriteError Bool :=
  match as, bs with
  | a :: as, b :: bs => if a.same b then itemsBefore as bs else keyBefore a b
  | [], _ :: _ => .ok true
  | _, [] => .ok false
termination_by structural as

end

/-- The entries in the order of their keys, if the keys have one. A single entry needs none. -/
def sortEntries {α : Type} (entries : List (Value × α)) : Except WriteError (List (Value × α)) :=
  if entries.length ≤ 1 then .ok entries
  else if entries.all fun entry => (text? entry.1).isSome then
    .ok (entries.mergeSort fun a b => !((text? b.1).getD "" < (text? a.1).getD "" : Bool))
  else Sorting.sort (fun a b => keyBefore a.1 b.1) entries

theorem sortEntries_perm {α : Type} {entries sorted : List (Value × α)}
    (h : sortEntries entries = .ok sorted) :
    sorted.Perm entries := by
  rw [sortEntries] at h
  split at h
  · rw [← Except.ok.inj h]
  · split at h
    · rw [← Except.ok.inj h]
      exact List.mergeSort_perm _ _
    · exact Sorting.sort_perm _ h

end ModelSchema.Json
