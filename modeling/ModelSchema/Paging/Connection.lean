import ModelSchema.Paging.Cursor
import ModelSchema.Value.Access

/-!
# Connections

A connection is a page of a list: items with their cursors, and whether there are more on either
side. A page is chosen by the arguments `after` and `before`, cursors that bound it, and `first` and
`last`, the number of items that it may have counted from either end. Arguments that are no cursors
or no numbers are passed over.
-/

namespace ModelSchema.Paging

/-- An item and its place in the list. -/
structure Edge where
  cursor : String
  node : Value

structure PageInfo where
  startCursor : Option String
  endCursor : Option String
  hasPreviousPage : Bool
  hasNextPage : Bool

structure Connection where
  edges : List Edge
  pageInfo : PageInfo

/-- What chooses a page. -/
structure Page where
  /-- The index of the item before the page, `-1` if there is none. -/
  after : Int
  /-- The index of the item behind the page. -/
  before : Int
  first : Option Int
  last : Option Int

/-- A whole number; the truth values count as one and zero. -/
def wholeNumber? : Value → Option Int
  | .bool b => some (if b then 1 else 0)
  | .int n => some n
  | _ => none

/-- The index that an argument stands for, if it is a cursor. -/
def argumentIndex? : Value → Option Int
  | .text s => cursorIndex? s
  | _ => none

/-- What the arguments of a query choose from a list of a given length. -/
def Page.ofArguments (arguments : List (Value × Value)) (length : Nat) : Page :=
  let argument (name : String) : Value := (Table.find? (.text name) arguments).getD .null
  { after := (argumentIndex? (argument "after")).getD (-1)
    before := (argumentIndex? (argument "before")).getD length
    first := wholeNumber? (argument "first")
    last := wholeNumber? (argument "last") }

namespace Page

/-- The items between the cursors: from which index on and below which. A cursor outside the list
does not bound the page. -/
def bounds (p : Page) (length : Nat) : Nat × Nat :=
  (if 0 ≤ p.after ∧ p.after < length then p.after.toNat + 1 else 0,
   if 0 ≤ p.before ∧ p.before < length then p.before.toNat else length)

/-- The items of the page, from which index on and below which, or the name of a negative count. -/
def range (p : Page) (length : Nat) : Except Failure (Nat × Nat) :=
  let (start, stop) := p.bounds length
  match p.first, p.last with
  | some first, last =>
    if first < 0 then .error (.negativeCount "first")
    else lastOf start (min stop (start + first.toNat)) last
  | none, last => lastOf start stop last
where
  /-- What is left of a range when only its last items are wanted. -/
  lastOf (start stop : Nat) : Option Int → Except Failure (Nat × Nat)
    | none => .ok (start, stop)
    | some last =>
      if last < 0 then .error (.negativeCount "last") else .ok (max start (stop - last.toNat), stop)

end Page

/-- The edges of items that stand in a list from an index on. -/
def edgesFrom (index : Nat) : List Value → List Edge
  | [] => []
  | v :: rest => ⟨cursor index, v⟩ :: edgesFrom (index + 1) rest

/-- The page that the arguments of a query choose from a list. -/
def Connection.ofList (items : List Value) (arguments : List (Value × Value)) :
    Except Failure Connection :=
  let page := Page.ofArguments arguments items.length
  (page.range items.length).map fun (start, stop) =>
    let edges := edgesFrom start ((items.take stop).drop start)
    { edges
      pageInfo :=
        { startCursor := edges.head?.map (·.cursor)
          endCursor := edges.getLast?.map (·.cursor)
          hasPreviousPage := page.last.isSome && decide (page.after + 1 < start)
          hasNextPage := page.first.isSome && decide ((stop : Int) < page.before) } }

end ModelSchema.Paging
