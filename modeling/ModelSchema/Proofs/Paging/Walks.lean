import ModelSchema.Proofs.Execution
import ModelSchema.Proofs.Paging.Cursors
import ModelSchema.Proofs.Tables
import ModelSchema.Proofs.Value.Sameness
import ModelSchema.Schema.RelationField
import ModelSchema.Schema.Resolution

/-!
# Walks through relations

A client that wants all related instances walks through the pages of a relation: it asks for so many
items from one end of the list and goes on at the cursor that each page gives, as long as the page
says that there are more. Main statement: with pages of at least one item such a walk comes to an
end and meets every item once and in order, from either end, whatever other arguments the client
sends along. It is needed that the lookup leaves the arguments that choose the page as they are; one
that shortens the pages makes a walk lose items.
-/

namespace ModelSchema

variable {xs : List Value} {rows others : List (Value × Value)} {n k start stop : Nat}

namespace Paging

theorem map_node_edgesFrom (index : Nat) (vs : List Value) :
    (edgesFrom index vs).map Edge.node = vs := by
  induction vs generalizing index with
  | nil => rfl
  | cons v rest ih => rw [edgesFrom, List.map_cons, ih]

theorem head_edgesFrom (index : Nat) {vs : List Value} (h : vs ≠ []) :
    (edgesFrom index vs).head?.map Edge.cursor = some (cursor index) := by
  cases vs with
  | nil => exact absurd rfl h
  | cons v rest => rfl

theorem getLast_edgesFrom (index : Nat) {vs : List Value} (h : vs ≠ []) :
    (edgesFrom index vs).getLast?.map Edge.cursor = some (cursor (index + (vs.length - 1))) := by
  induction vs generalizing index with
  | nil => exact absurd rfl h
  | cons v rest ih =>
    cases rest with
    | nil => rfl
    | cons w more =>
      have hrest := ih (index + 1) (List.cons_ne_nil w more)
      have hindex :
          index + 1 + ((w :: more).length - 1) = index + ((v :: w :: more).length - 1) := by
        simp only [List.length_cons]
        omega
      rw [edgesFrom, edgesFrom, List.getLast?_cons_cons, ← edgesFrom, hrest, hindex]

def Connection.nodes (c : Connection) : List Value := c.edges.map Edge.node

/-- The page of a list between two indices. -/
structure Connection.Holds (c : Connection) (xs : List Value) (start stop : Nat) : Prop where
  nodes : c.nodes = (xs.take stop).drop start
  startCursor : start < stop → c.pageInfo.startCursor = some (cursor start)
  endCursor : start < stop → c.pageInfo.endCursor = some (cursor (stop - 1))

theorem exists_ofList {page : Page} (hr : page.range xs.length = .ok (start, stop))
    (hstop : stop ≤ xs.length) :
    ∃ c, (∀ rows, Page.ofArguments rows xs.length = page → Connection.ofList xs rows = .ok c) ∧
      c.Holds xs start stop ∧
      c.pageInfo.hasPreviousPage = (page.last.isSome && decide (page.after + 1 < start)) ∧
      c.pageInfo.hasNextPage = (page.first.isSome && decide ((stop : Int) < page.before)) := by
  let edges := edgesFrom start ((xs.take stop).drop start)
  let pageInfo : PageInfo :=
    { startCursor := edges.head?.map Edge.cursor
      endCursor := edges.getLast?.map Edge.cursor
      hasPreviousPage := page.last.isSome && decide (page.after + 1 < start)
      hasNextPage := page.first.isSome && decide ((stop : Int) < page.before) }
  refine ⟨⟨edges, pageInfo⟩, ?_, ?_, rfl, rfl⟩
  · intro rows hp
    rw [Connection.ofList, hp, hr]
    rfl
  have hlength : ((xs.take stop).drop start).length = stop - start := by
    rw [List.length_drop, List.length_take, Nat.min_eq_left hstop]
  have hne : start < stop → (xs.take stop).drop start ≠ [] := by
    intro hlt
    apply List.ne_nil_of_length_pos
    omega
  constructor
  · exact map_node_edgesFrom start _
  · intro hlt
    exact head_edgesFrom start (hne hlt)
  · intro hlt
    have hlast := getLast_edgesFrom start (hne hlt)
    have hindex : start + (stop - start - 1) = stop - 1 := by omega
    rwa [hlength, hindex] at hlast

theorem Page.bounds_eq {p : Page} {length : Nat} (ha : p.after = (start : Int) - 1)
    (hb : p.before = stop) (hstart : start ≤ length) (hstop : stop ≤ length) :
    p.bounds length = (start, stop) := by
  rw [Page.bounds, ha, hb, Prod.mk.injEq]
  constructor
  · split <;> omega
  · split <;> omega

/-- The names of the arguments that choose a page. -/
def pageNames : List String := ["after", "before", "first", "last"]

/-- What a query says under a name, null if it says nothing. -/
def argument (rows : List (Value × Value)) (name : String) : Value :=
  (Table.find? (.text name) rows).getD .null

/-- Two queries say the same about the page that they want. -/
def ChooseAlike (rows others : List (Value × Value)) : Prop :=
  ∀ name ∈ pageNames, argument rows name = argument others name

theorem Page.ofArguments_congr (h : ChooseAlike rows others) (length : Nat) :
    Page.ofArguments rows length = Page.ofArguments others length := by
  have ha : argument rows "after" = argument others "after" := h _ (by decide)
  have hb : argument rows "before" = argument others "before" := h _ (by decide)
  have hf : argument rows "first" = argument others "first" := h _ (by decide)
  have hl : argument rows "last" = argument others "last" := h _ (by decide)
  change Page.mk ((argumentIndex? (argument rows "after")).getD (-1))
    ((argumentIndex? (argument rows "before")).getD length) (wholeNumber? (argument rows "first"))
    (wholeNumber? (argument rows "last")) = _
  rw [ha, hb, hf, hl]
  rfl

theorem Connection.ofList_congr (h : ChooseAlike rows others) (xs : List Value) :
    Connection.ofList xs rows = Connection.ofList xs others := by
  rw [Connection.ofList, Page.ofArguments_congr h, ← Connection.ofList]

/-- The end of a list from which a client walks. -/
inductive Direction where
  | forward | backward

namespace Direction

variable {d : Direction}

def opposite : Direction → Direction
  | forward => backward
  | backward => forward

/-- The argument that limits the number of items. -/
def countName : Direction → String
  | forward => "first"
  | backward => "last"

/-- The argument that says where to go on. -/
def cursorName : Direction → String
  | forward => "after"
  | backward => "before"

/-- A query wants the next `n` items of a walk from a cursor on, or the first of the walk. -/
structure Asks (d : Direction) (n : Nat) (position : Option String) (rows : List (Value × Value)) :
    Prop where
  count : argument rows d.countName = .int n
  cursor : argument rows d.cursorName = position.elim .null .text
  noOtherCount : argument rows d.opposite.countName = .null
  noOtherCursor : argument rows d.opposite.cursorName = .null

/-- Whether a page says that the walk goes on. -/
def hasMore (d : Direction) (info : PageInfo) : Bool :=
  match d with
  | forward => info.hasNextPage
  | backward => info.hasPreviousPage

/-- Where the walk goes on behind a page. -/
def nextCursor (d : Direction) (info : PageInfo) : Option String :=
  match d with
  | forward => info.endCursor
  | backward => info.startCursor

/-- Items that the walk meets, and those that it meets later, in the order of the list. -/
def glue (d : Direction) (near far : List Value) : List Value :=
  match d with
  | forward => near ++ far
  | backward => far ++ near

/-- The items of the pages of a walk in the order of the list. -/
def join (d : Direction) (pages : List Connection) : List Value :=
  pages.foldr (fun page met => d.glue page.nodes met) []

/-- A walk from a position to its end, page by page. -/
inductive Walk (d : Direction) (ask : Option String → Except Failure Resolved) :
    Option String → List Connection → Prop
  | finish {position : Option String} {page : Connection}
      (asked : ask position = .ok (.connection page)) (ended : d.hasMore page.pageInfo = false) :
      Walk d ask position [page]
  | goOn {position : Option String} {page : Connection} {pages : List Connection}
      (asked : ask position = .ok (.connection page)) (more : d.hasMore page.pageInfo = true)
      (rest : Walk d ask (d.nextCursor page.pageInfo) pages) : Walk d ask position (page :: pages)

section Answers

variable {ask : Option String → Except Failure Resolved} {position : Option String}
  {page : Connection} {walked : List Connection}

theorem walk_iff_of_ended (asked : ask position = .ok (.connection page))
    (ended : d.hasMore page.pageInfo = false) : d.Walk ask position walked ↔ walked = [page] := by
  constructor
  · intro h
    cases h with
    | finish asked' _ =>
      rw [asked] at asked'
      cases asked'
      rfl
    | goOn asked' more _ =>
      rw [asked] at asked'
      cases asked'
      rw [ended] at more
      cases more
  · rintro rfl
    exact .finish asked ended

theorem walk_iff_of_more (asked : ask position = .ok (.connection page))
    (more : d.hasMore page.pageInfo = true) : d.Walk ask position walked ↔
      ∃ rest, walked = page :: rest ∧ d.Walk ask (d.nextCursor page.pageInfo) rest := by
  constructor
  · intro h
    cases h with
    | finish asked' ended =>
      rw [asked] at asked'
      cases asked'
      rw [more] at ended
      cases ended
    | goOn asked' _ rest =>
      rw [asked] at asked'
      cases asked'
      exact ⟨_, rfl, rest⟩
  · rintro ⟨rest, rfl, h⟩
    exact .goOn asked more h

end Answers

/-- Where a walk goes on when it has `k` of `length` items behind it. -/
def positionAt (d : Direction) (length k : Nat) : Option String :=
  match k, d with
  | 0, _ => none
  | k + 1, forward => some (Paging.cursor k)
  | k + 1, backward => some (Paging.cursor (length - (k + 1)))

/-- The page that is chosen there. -/
def pageAt (d : Direction) (n length k : Nat) : Page :=
  match d with
  | forward => { after := (k : Int) - 1, before := length, first := some n, last := none }
  | backward => { after := -1, before := (length : Int) - k, first := none, last := some n }

/-- The items that a walk has before it when it has `k` items behind it. -/
def ahead (d : Direction) (xs : List Value) (k : Nat) : List Value :=
  match d with
  | forward => xs.drop k
  | backward => xs.take (xs.length - k)

theorem positionAt_of_pos (d : Direction) {length : Nat} (hk : 0 < k) :
    d.positionAt length k = some (Paging.cursor (match d with
      | forward => k - 1
      | backward => length - k)) := by
  cases k with
  | zero => cases hk
  | succ k => cases d <;> rfl

theorem afterIndex_positionAt (length k : Nat) :
    (argumentIndex? ((forward.positionAt length k).elim .null .text)).getD (-1) =
      (k : Int) - 1 := by
  cases k with
  | zero => rfl
  | succ k =>
    change (cursorIndex? (Paging.cursor k)).getD (-1) = _
    rw [cursorIndex?_cursor, Option.getD_some]
    omega

theorem beforeIndex_positionAt {length : Nat} (hk : k ≤ length) :
    (argumentIndex? ((backward.positionAt length k).elim .null .text)).getD length =
      (length : Int) - k := by
  cases k with
  | zero =>
    change (length : Int) = _
    omega
  | succ k =>
    change (cursorIndex? (Paging.cursor (length - (k + 1)))).getD length = _
    rw [cursorIndex?_cursor, Option.getD_some]
    omega

theorem Asks.page_eq {length : Nat} (h : d.Asks n (d.positionAt length k) rows)
    (hk : k ≤ length) : Page.ofArguments rows length = d.pageAt n length k := by
  obtain ⟨hcount, hcursor, hother, hbound⟩ := h
  have hunfold : Page.ofArguments rows length =
      { after := (argumentIndex? (argument rows "after")).getD (-1)
        before := (argumentIndex? (argument rows "before")).getD length
        first := wholeNumber? (argument rows "first")
        last := wholeNumber? (argument rows "last") } := rfl
  rw [hunfold]
  cases d with
  | forward =>
    simp only [countName, cursorName, opposite] at hcount hcursor hother hbound
    rw [hcount, hcursor, hother, hbound, afterIndex_positionAt]
    rfl
  | backward =>
    simp only [countName, cursorName, opposite] at hcount hcursor hother hbound
    rw [hcount, hcursor, hother, hbound, beforeIndex_positionAt hk]
    rfl

theorem range_pageAt_forward {length : Nat} (hk : k ≤ length) :
    (forward.pageAt n length k).range length = .ok (k, min length (k + n)) := by
  have hbounds : (forward.pageAt n length k).bounds length = (k, length) :=
    Page.bounds_eq rfl rfl hk (Nat.le_refl length)
  simp only [Page.range, hbounds]
  simp [pageAt, Page.range.lastOf]

theorem range_pageAt_backward {length : Nat} (hk : k ≤ length) :
    (backward.pageAt n length k).range length = .ok (length - k - n, length - k) := by
  have hbounds : (backward.pageAt n length k).bounds length = (0, length - k) :=
    Page.bounds_eq rfl (Int.ofNat_sub hk).symm (Nat.zero_le length) (Nat.sub_le length k)
  simp only [Page.range, hbounds]
  simp [pageAt, Page.range.lastOf]

/-- A page of a walk: the items that it adds, whether the walk goes on, and where. -/
structure Continues (d : Direction) (xs : List Value) (n k : Nat) (page : Connection) : Prop where
  items : d.glue page.nodes (d.ahead xs (k + n)) = d.ahead xs k
  more : d.hasMore page.pageInfo = decide (k + n < xs.length)
  next : k + n < xs.length → d.nextCursor page.pageInfo = d.positionAt xs.length (k + n)

theorem exists_page_forward (hn : 1 ≤ n) (hk : k ≤ xs.length) :
    ∃ page, (∀ rows, Page.ofArguments rows xs.length = forward.pageAt n xs.length k →
      Connection.ofList xs rows = .ok page) ∧ forward.Continues xs n k page := by
  obtain ⟨page, hpage, hholds, -, hnext⟩ :=
    exists_ofList (range_pageAt_forward (n := n) hk) (Nat.min_le_left _ _)
  refine ⟨page, hpage, ?_, ?_, ?_⟩
  · have htake : xs.take (min xs.length (k + n)) = xs.take (k + n) := by
      rw [Nat.min_comm, ← List.take_eq_take_min]
    have hn' : k + n - k = n := by omega
    simp only [glue, ahead]
    rw [hholds.nodes, htake, List.drop_take, hn', ← List.drop_drop, List.take_append_drop]
  · rw [hasMore, hnext]
    change decide (((min xs.length (k + n) : Nat) : Int) < (xs.length : Int)) = _
    rw [decide_eq_decide]
    omega
  · intro hlt
    have hmin : min xs.length (k + n) = k + n := by omega
    rw [hmin] at hholds
    rw [positionAt_of_pos forward (by omega)]
    exact hholds.endCursor (by omega)

theorem exists_page_backward (hn : 1 ≤ n) (hk : k ≤ xs.length) :
    ∃ page, (∀ rows, Page.ofArguments rows xs.length = backward.pageAt n xs.length k →
      Connection.ofList xs rows = .ok page) ∧ backward.Continues xs n k page := by
  obtain ⟨page, hpage, hholds, hprevious, -⟩ :=
    exists_ofList (range_pageAt_backward (n := n) hk) (Nat.sub_le _ _)
  have hsub : xs.length - k - n = xs.length - (k + n) := by omega
  rw [hsub] at hholds hprevious
  refine ⟨page, hpage, ?_, ?_, ?_⟩
  · have htake : xs.take (xs.length - (k + n)) =
        (xs.take (xs.length - k)).take (xs.length - (k + n)) := by
      rw [List.take_take, Nat.min_eq_left (by omega)]
    simp only [glue, ahead]
    rw [hholds.nodes, htake, List.take_append_drop]
  · rw [hasMore, hprevious]
    change decide ((-1 : Int) + 1 < ((xs.length - (k + n) : Nat) : Int)) = _
    rw [decide_eq_decide]
    omega
  · intro hlt
    rw [positionAt_of_pos backward (by omega)]
    exact hholds.startCursor (by omega)

/-- What all queries get that want the next items of a walk. -/
theorem exists_page (d : Direction) (hn : 1 ≤ n) (hk : k ≤ xs.length) :
    ∃ page, (∀ rows, d.Asks n (d.positionAt xs.length k) rows →
      Connection.ofList xs rows = .ok page) ∧ d.Continues xs n k page := by
  have hchosen : ∃ page, (∀ rows, Page.ofArguments rows xs.length = d.pageAt n xs.length k →
      Connection.ofList xs rows = .ok page) ∧ d.Continues xs n k page := by
    cases d with
    | forward => exact exists_page_forward hn hk
    | backward => exact exists_page_backward hn hk
  obtain ⟨page, hpage, hcontinues⟩ := hchosen
  exact ⟨page, fun rows h => hpage rows (h.page_eq hk), hcontinues⟩

theorem ahead_zero (d : Direction) (xs : List Value) : d.ahead xs 0 = xs := by
  cases d with
  | forward => rfl
  | backward => exact List.take_length

theorem ahead_of_length_le (d : Direction) (h : xs.length ≤ k) : d.ahead xs k = [] := by
  cases d with
  | forward => exact List.drop_eq_nil_of_le h
  | backward =>
    rw [ahead, Nat.sub_eq_zero_of_le h]
    rfl

/-- Whoever asks at a position gets the page of the list that a query for the position chooses. -/
def Serves (d : Direction) (n : Nat) (xs : List Value)
    (ask : Option String → Except Failure Resolved) : Prop :=
  ∀ position, ∃ rows, d.Asks n position rows ∧
    ask position = (Connection.ofList xs rows).map .connection

/-- From every position that a walk comes to there is one walk to the end, and it meets what is
ahead. -/
theorem exists_walk (d : Direction) (hn : 1 ≤ n) (k : Nat) (hk : k ≤ xs.length) :
    ∃ pages, d.join pages = d.ahead xs k ∧ ∀ ask, d.Serves n xs ask →
      ∀ walked, d.Walk ask (d.positionAt xs.length k) walked ↔ walked = pages := by
  -- the position alone fixes the page, so that all who ask walk alike
  obtain ⟨page, hpage, hcontinues⟩ := d.exists_page hn hk
  have hasked : ∀ ask, d.Serves n xs ask →
      ask (d.positionAt xs.length k) = .ok (.connection page) := by
    intro ask hserves
    obtain ⟨rows, hasks, hanswer⟩ := hserves (d.positionAt xs.length k)
    rw [hanswer, hpage rows hasks]
    rfl
  by_cases hlt : k + n < xs.length
  · obtain ⟨pages, hjoin, hwalk⟩ := exists_walk d hn (k + n) (Nat.le_of_lt hlt)
    have hmore : d.hasMore page.pageInfo = true := hcontinues.more.trans (decide_eq_true hlt)
    refine ⟨page :: pages, ?_, fun ask hserves walked => ?_⟩
    · rw [← hcontinues.items, ← hjoin]
      rfl
    · rw [walk_iff_of_more (hasked ask hserves) hmore, hcontinues.next hlt]
      simp only [hwalk ask hserves, exists_eq_right]
  · have hended : d.hasMore page.pageInfo = false := hcontinues.more.trans (decide_eq_false hlt)
    refine ⟨[page], ?_, fun ask hserves walked => walk_iff_of_ended (hasked ask hserves) hended⟩
    rw [← hcontinues.items, d.ahead_of_length_le (Nat.le_of_not_lt hlt)]
    rfl
-- each page leaves fewer items ahead
termination_by xs.length - k

end Direction

/-- A client that walks through pages of `n` items: at each position it asks for the next items, and
for whatever else it likes. -/
structure Client (d : Direction) (n : Nat) where
  query : Option String → List (Value × Value)
  distinct : ∀ position, Table.Distinct (query position)
  asks : ∀ position, d.Asks n position (query position)

end Paging

open Paging

variable {settings : Settings} {relation : Relation} {field : Field} {lookup : RelationLookup}
  {source context : Value}

namespace RelationLookup

/-- Asked for the instances that are related to a source, the lookup answers with the same list
whatever the arguments, at once or after waiting. -/
def AlwaysGives (lookup : RelationLookup) (relation : Relation) (source context : Value)
    (xs : List Value) : Prop :=
  ∀ arguments, ∃ answer, (lookup { relation, source, arguments, context }).answer = .ok answer ∧
    answer.outcome = .ok (.list xs)

/-- The lookup leaves what the arguments say about the page as it is. -/
def KeepsPage (lookup : RelationLookup) (relation : Relation) (source context : Value) : Prop :=
  ∀ arguments, ChooseAlike (lookup { relation, source, arguments, context }).arguments arguments

theorem relatedList_list (xs : List Value) : relatedList (.list xs) = .ok xs := by
  cases xs <;> rfl

theorem page_eq (hg : lookup.AlwaysGives relation source context xs)
    (hk : lookup.KeepsPage relation source context) (arguments : List (Value × Value)) :
    LookupCall.page { relation, source, arguments, context } lookup =
      Connection.ofList xs arguments := by
  obtain ⟨answer, hanswer, houtcome⟩ := hg arguments
  have hlist : LookupCall.page { relation, source, arguments, context } lookup =
      Connection.ofList xs (lookup { relation, source, arguments, context }).arguments := by
    simp only [LookupCall.page, hanswer, houtcome, relatedList_list, bind, Except.bind]
  rw [hlist, Connection.ofList_congr (hk arguments)]

end RelationLookup

theorem relationCall_mapping (relation : Relation) (source context : Value)
    (hd : Table.Distinct rows) :
    relationCall relation source (.mapping rows) context =
      .ok { relation, source, arguments := rows, context } := by
  have hrows : (Value.mapping rows).optionalRows = .ok rows := by
    cases rows <;> rfl
  rw [relationCall, hrows]
  simp only [Except.map, Table.ofRows_eq_self hd]

theorem exists_ofRelation (h : (compileRelation settings relation).outcome = .ok field) :
    ∃ arguments, field = Field.ofRelation relation arguments := by
  rw [compileRelation, Traced.bind_eq_ok] at h
  obtain ⟨_, -, h⟩ := h
  rw [Traced.bind_eq_ok] at h
  obtain ⟨arguments, -, h⟩ := h
  cases h
  exact ⟨arguments, rfl⟩

theorem resolve_eq_ofList (hc : (compileRelation settings relation).outcome = .ok field)
    (hg : lookup.AlwaysGives relation source context xs)
    (hk : lookup.KeepsPage relation source context) (hd : Table.Distinct rows) :
    field.resolve lookup source (.mapping rows) context =
      (Connection.ofList xs rows).map .connection := by
  obtain ⟨arguments, rfl⟩ := exists_ofRelation hc
  have hpage : resolveRelation lookup relation source (.mapping rows) context =
      Connection.ofList xs rows := by
    rw [resolveRelation, relationCall_mapping relation source context hd]
    exact lookup.page_eq hg hk rows
  rw [← hpage]
  rfl

/-- Walking through a relation, from either end and in pages of at least one item, comes to an end
and meets the related instances once each and in order. Nothing but the arguments that choose the
page makes a difference to it. -/
theorem relation_walks_meet_all (hc : (compileRelation settings relation).outcome = .ok field)
    (hg : lookup.AlwaysGives relation source context xs)
    (hk : lookup.KeepsPage relation source context) (hn : 1 ≤ n) :
    (∀ d : Direction, ∃ pages, d.join pages = xs ∧
      ∀ (client : Client d n) (walked : List Connection),
        d.Walk (fun position =>
          field.resolve lookup source (.mapping (client.query position)) context) none walked ↔
            walked = pages) ∧
    ∀ rows others, Table.Distinct rows → Table.Distinct others → ChooseAlike rows others →
      field.resolve lookup source (.mapping rows) context =
        field.resolve lookup source (.mapping others) context := by
  constructor
  · intro d
    obtain ⟨pages, hjoin, hwalk⟩ := d.exists_walk hn 0 (Nat.zero_le xs.length)
    refine ⟨pages, by rw [hjoin, d.ahead_zero], fun client => hwalk _ fun position => ?_⟩
    exact ⟨client.query position, client.asks position,
      resolve_eq_ofList hc hg hk (client.distinct position)⟩
  · intro rows others hrows hothers halike
    rw [resolve_eq_ofList hc hg hk hrows, resolve_eq_ofList hc hg hk hothers,
      Connection.ofList_congr halike]

/-- The client that filters the instances by the same value in each query. -/
def Paging.Direction.filteringClient (d : Direction) (n : Nat) (filter : Value) : Client d n where
  query position :=
    [(.text "active", filter), (.text d.countName, .int n),
     (.text d.cursorName, position.elim .null .text)]
  distinct position := by
    cases d <;> simp [Table.Distinct, Direction.countName, Direction.cursorName]
  asks position := by
    cases d <;> constructor <;> rfl

def ordersRelation : Relation :=
  { name := "orders", source := "Customer", target := some "Order", kind := .hasMany }

def ordersField : Field :=
  Field.ofRelation ordersRelation ((.text "active", filterArgument) :: pageArguments)

theorem compileRelation_orders :
    (compileRelation {} ordersRelation).outcome = .ok ordersField := rfl

/-- A customer who holds three orders. -/
def ordersCustomer : Value :=
  .mapping [(.text "orders", .list [.text "books", .text "pens", .text "ink"])]

/-- In pages of two, filtered or not, the orders of a customer are met from either end. -/
theorem relation_walks_meet_all_orders :
    let orders : List Value := [.text "books", .text "pens", .text "ink"]
    (compileRelation {} ordersRelation).outcome = .ok ordersField ∧
      RelationLookup.inSource.AlwaysGives ordersRelation ordersCustomer .null orders ∧
      RelationLookup.inSource.KeepsPage ordersRelation ordersCustomer .null ∧ 1 ≤ 2 ∧
      ∀ d : Direction, ∃ pages, d.join pages = orders ∧ ∀ filter,
        d.Walk (fun position => ordersField.resolve .inSource ordersCustomer
          (.mapping ((d.filteringClient 2 filter).query position)) .null) none pages := by
  intro orders
  have hgives : RelationLookup.inSource.AlwaysGives ordersRelation ordersCustomer .null orders :=
    fun arguments => ⟨_, rfl, rfl⟩
  have hkeeps : RelationLookup.inSource.KeepsPage ordersRelation ordersCustomer .null :=
    fun arguments name _ => rfl
  refine ⟨compileRelation_orders, hgives, hkeeps, by decide, fun d => ?_⟩
  obtain ⟨hwalks, -⟩ :=
    relation_walks_meet_all compileRelation_orders hgives hkeeps (show 1 ≤ 2 by decide)
  obtain ⟨pages, hjoin, hwalk⟩ := hwalks d
  exact ⟨pages, hjoin, fun filter => (hwalk _ pages).mpr rfl⟩

/-- The lookup that gives one order and limits every page to no items. -/
def hidingLookup : RelationLookup :=
  .changing (.mapping [(.text "last", .int 0)]) (.list [.text "books"])

/-- A lookup that always gives the same list may change the arguments that choose the page, and then
a walk loses items. -/
theorem hidingLookup_loses_items :
    (compileRelation {} ordersRelation).outcome = .ok ordersField ∧
      (∀ source context,
        hidingLookup.AlwaysGives ordersRelation source context [.text "books"]) ∧
      ¬ ∃ pages, Direction.forward.join pages = [.text "books"] ∧
        Direction.forward.Walk (fun position => ordersField.resolve hidingLookup .null
          (.mapping ((Direction.forward.filteringClient 1 .null).query position)) .null)
          none pages := by
  refine ⟨compileRelation_orders, fun source context arguments => ⟨.ready _, rfl, rfl⟩, ?_⟩
  rintro ⟨pages, hjoin, hwalk⟩
  have hasked : ordersField.resolve hidingLookup .null
      (.mapping ((Direction.forward.filteringClient 1 .null).query none)) .null =
        .ok (.connection ⟨[], ⟨none, none, true, false⟩⟩) := rfl
  rw [(Direction.walk_iff_of_ended hasked rfl).mp hwalk] at hjoin
  cases hjoin

end ModelSchema
