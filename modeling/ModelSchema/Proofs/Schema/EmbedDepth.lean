import Mathlib.Data.List.MinMax
import Mathlib.Order.Nat
import ModelSchema.Proofs.Schema.Compilation

/-!
# The limit on nesting structures

A property that declares a structure opens it, and so do the properties inside, until a property
opens none. `Nests` counts the levels. A compilation with a whole number as limit opens as many
levels as the limit leaves at the depth where it starts. Main statement: it stops for nesting too
deep exactly if the property nests deeper than that, unless the values that an enumeration lists on
the way cannot be told apart; what it gives otherwise does not depend on the limit.
-/

namespace ModelSchema

variable {α : Type} {s : Surroundings} {o : Owner} {p : Property} {raw name : Value}
  {hidden : List Value} {rows : List (Value × Property)} {n levels : Nat} {limit : Int}
  {e : Failure} {c : Compiled}

namespace Property

/-- A property opens the structure that it declares, unless it is deprecated or a timestamp. -/
structure Opens (p : Property) (raw name : Value) (hidden : List Value) : Prop where
  kept : p.deprecated = false
  untimed : p.isTimestamp = false
  item : p.type.itemType = .embedded raw name hidden

/-- A property opens no structure. -/
def IsFlat (p : Property) : Prop := ∀ raw name hidden, ¬ p.Opens raw name hidden

theorem isFlat_or_opens (p : Property) :
    p.IsFlat ∨ ∃ raw name hidden, p.Opens raw name hidden := by
  by_cases h : ∃ raw name hidden, p.Opens raw name hidden
  · exact .inr h
  · exact .inl fun raw name hidden ho => h ⟨raw, name, hidden, ho⟩

/-- The greatest depth of the properties in a table. -/
def deepest (depth : Property → Nat) (rows : List (Value × Property)) : Nat :=
  (rows.map fun row => depth row.2).foldr max 0

/-- How many structures nest at a property: none if it opens none or an empty one, or else the one
that it opens and as many as nest at any property inside. -/
inductive Nests : Property → Nat → Prop
  | flat {p : Property} : p.IsFlat → Nests p 0
  | empty {p : Property} {raw name : Value} {hidden : List Value} :
    p.Opens raw name hidden → ofMapping raw = .ok [] → Nests p 0
  | inside {p : Property} {raw name : Value} {hidden : List Value}
      {rows : List (Value × Property)} (depth : Property → Nat) :
    p.Opens raw name hidden → ofMapping raw = .ok rows → rows ≠ [] →
      (∀ row ∈ rows, Nests row.2 (depth row.2)) →
      Nests p (1 + deepest depth rows)

/-- A property is another, or stands inside a structure that the other opens, at any depth. -/
inductive Contains : Property → Property → Prop
  | self {p : Property} : Contains p p
  | inside {p q : Property} {raw name : Value} {hidden : List Value}
      {rows : List (Value × Property)} {row : Value × Property} :
    p.Opens raw name hidden → ofMapping raw = .ok rows → row ∈ rows → Contains row.2 q →
      Contains p q

/-- All structures that open at a property can be read. -/
def Readable (p : Property) : Prop :=
  ∀ q raw name hidden, p.Contains q → q.Opens raw name hidden → ∃ rows, ofMapping raw = .ok rows

/-- The values that are listed at a property, at any depth, can be told apart. -/
def Comparable (p : Property) : Prop :=
  ∀ q values, p.Contains q → q.enum = some values → Value.distinctSignals [] values = false

theorem Opens.raw_eq {raw' name' : Value} {hidden' : List Value} (h : p.Opens raw name hidden)
    (h' : p.Opens raw' name' hidden') : raw' = raw := by
  cases h'.item.symm.trans h.item
  rfl

theorem Readable.inside {row : Value × Property} (h : p.Readable) (ho : p.Opens raw name hidden)
    (hr : ofMapping raw = .ok rows) (hrow : row ∈ rows) : row.2.Readable :=
  fun q raw name hidden hq => h q raw name hidden (.inside ho hr hrow hq)

theorem Comparable.inside {row : Value × Property} (h : p.Comparable)
    (ho : p.Opens raw name hidden) (hr : ofMapping raw = .ok rows) (hrow : row ∈ rows) :
    row.2.Comparable :=
  fun q values hq => h q values (.inside ho hr hrow hq)

theorem Nests.unique {n' : Nat} (h : p.Nests n) (h' : p.Nests n') : n = n' := by
  induction h generalizing n' with
  | flat hflat =>
    cases h' with
    | flat _ => rfl
    | empty ho _ | inside _ ho _ _ _ => exact absurd ho (hflat _ _ _)
  | empty ho hr =>
    cases h' with
    | flat hflat => exact absurd ho (hflat _ _ _)
    | empty _ _ => rfl
    | inside _ ho' hr' hne _ =>
      rw [ho.raw_eq ho', hr] at hr'
      cases hr'
      exact absurd rfl hne
  | @inside p raw name hidden rows depth ho hr hne _ ih =>
    cases h' with
    | flat hflat => exact absurd ho (hflat _ _ _)
    | empty ho' hr' =>
      rw [ho.raw_eq ho', hr] at hr'
      cases hr'
      exact absurd rfl hne
    | inside depth' ho' hr' _ hall' =>
      rw [ho.raw_eq ho', hr] at hr'
      cases hr'
      have hsame : ∀ row ∈ rows, depth row.2 = depth' row.2 := fun row hrow =>
        ih row hrow (hall' row hrow)
      rw [deepest, List.map_congr_left hsame, deepest]

theorem Nests.readable (h : p.Nests n) : p.Readable := by
  induction h with
  | flat hflat =>
    intro q raw name hidden hq ho
    cases hq with
    | self => exact absurd ho (hflat _ _ _)
    | inside ho' _ _ _ => exact absurd ho' (hflat _ _ _)
  | empty ho hr =>
    intro q raw name hidden hq ho'
    cases hq with
    | self => exact ⟨[], ho.raw_eq ho' ▸ hr⟩
    | inside ho'' hr' hrow _ =>
      rw [ho.raw_eq ho'', hr] at hr'
      cases hr'
      cases hrow
  | @inside p _ _ _ rows depth ho hr hne _ ih =>
    intro q raw name hidden hq ho'
    cases hq with
    | self => exact ⟨rows, ho.raw_eq ho' ▸ hr⟩
    | inside ho'' hr' hrow hq =>
      rw [ho.raw_eq ho'', hr] at hr'
      cases hr'
      exact ih _ hrow q raw name hidden hq ho'

end Property

/-- The surroundings with a whole number as limit. -/
def Surroundings.limited (s : Surroundings) (limit : Int) : Surroundings :=
  { s with settings := { s.settings with maxEmbedDepth := .int limit } }

/-- The outcome that structures nest too deep. -/
def TooDeep (x : Except Failure α) : Prop :=
  ∃ typeName modelName field depth limit,
    x = .error (.embeddedTooDeep typeName modelName field depth limit)

theorem TooDeep.bind {β : Type} {x : Except Failure α} (h : TooDeep x)
    (f : α → Except Failure β) : TooDeep (x.bind f) := by
  obtain ⟨_, _, _, _, _, rfl⟩ := h
  exact ⟨_, _, _, _, _, rfl⟩

theorem TooDeep.map {β : Type} {x : Except Failure α} (h : TooDeep x) (f : α → β) :
    TooDeep (x.map f) := by
  obtain ⟨_, _, _, _, _, rfl⟩ := h
  exact ⟨_, _, _, _, _, rfl⟩

theorem compileWithin_of_deprecated (hd : p.deprecated = true) :
    compileWithin s levels o p = (do
      Traced.report (.deprecatedSkipped o.name p.name)
      pure {}) := by
  rw [compileWithin.eq_def, if_pos hd]

theorem DeclaredType.ne_untypedArray {t : DeclaredType} (h : t.itemType ≠ .untypedArray) :
    t ≠ .untypedArray := by
  rintro rfl
  exact h rfl

theorem compileWithin_of_array (hd : p.deprecated = false) (harray : p.type = .untypedArray) :
    compileWithin s levels o p = pure { field := (p.bareField o).withScalar .json } := by
  have hbare : { Field.ofProperty o p with isList := p.type.isList } = p.bareField o := rfl
  rw [compileWithin.eq_def, hd, if_neg Bool.false_ne_true]
  dsimp only
  rw [hbare, harray]

theorem compileWithin_of_timestamp (hd : p.deprecated = false) (harray : p.type ≠ .untypedArray)
    (ht : p.isTimestamp = true) :
    compileWithin s levels o p = compileScalar s o p (p.bareField o) p.type.itemType := by
  rw [compileWithin.eq_def, hd, ht, if_neg Bool.false_ne_true]
  dsimp only
  split
  · exact absurd ‹p.type = .untypedArray› harray
  · split
    · rfl
    · rename_i label hitem
      rw [hitem]
      rfl
    · rfl

theorem compileWithin_of_reference {label : String} (hd : p.deprecated = false)
    (ht : p.isTimestamp = false) (hitem : p.type.itemType = .reference label) :
    compileWithin s levels o p = compileReference s o p (p.bareField o) (.reference label) := by
  have harray : p.type ≠ .untypedArray := DeclaredType.ne_untypedArray (hitem.trans_ne nofun)
  rw [compileWithin.eq_def, hd, ht, if_neg Bool.false_ne_true]
  dsimp only
  split
  · exact absurd ‹p.type = .untypedArray› harray
  · rw [hitem]
    rfl

theorem compileWithin_of_scalar (hd : p.deprecated = false) (harray : p.type ≠ .untypedArray)
    (hstructure : ∀ raw name hidden, p.type.itemType ≠ .embedded raw name hidden)
    (hreference : ∀ label, p.type.itemType ≠ .reference label) :
    compileWithin s levels o p = compileScalar s o p (p.bareField o) p.type.itemType := by
  rw [compileWithin.eq_def, hd, if_neg Bool.false_ne_true]
  dsimp only
  split
  · exact absurd ‹p.type = .untypedArray› harray
  · split
    · exact absurd ‹_› (hstructure _ _ _)
    · exact absurd ‹_› (hreference _)
    · rfl

/-- The ways in which a property that opens no structure compiles: the levels do not matter. -/
inductive Property.Leaf (p : Property) : Prop
  | deprecated : p.deprecated = true →
    (∀ s levels o, compileWithin s levels o p = (do
      Traced.report (.deprecatedSkipped o.name p.name)
      pure {})) → Leaf p
  | array : p.deprecated = false → p.type = .untypedArray →
    (∀ s levels o,
      compileWithin s levels o p = pure { field := (p.bareField o).withScalar .json }) → Leaf p
  | scalar : p.deprecated = false → p.type ≠ .untypedArray →
    (p.isTimestamp = true ∨
      (∀ raw name hidden, p.type.itemType ≠ .embedded raw name hidden) ∧
        ∀ label, p.type.itemType ≠ .reference label) →
    (∀ s levels o,
      compileWithin s levels o p = compileScalar s o p (p.bareField o) p.type.itemType) → Leaf p
  | reference {label : String} : p.deprecated = false → p.isTimestamp = false →
    p.type.itemType = .reference label →
    (∀ s levels o,
      compileWithin s levels o p = compileReference s o p (p.bareField o) (.reference label)) →
    Leaf p

theorem Property.IsFlat.leaf (h : p.IsFlat) : p.Leaf := by
  by_cases hdeprecated : p.deprecated = true
  · exact .deprecated hdeprecated fun _ _ _ => compileWithin_of_deprecated hdeprecated
  · have hd : p.deprecated = false := by simpa using hdeprecated
    by_cases harray : p.type = .untypedArray
    · exact .array hd harray fun _ _ _ => compileWithin_of_array hd harray
    · by_cases htimed : p.isTimestamp = true
      · exact .scalar hd harray (.inl htimed) fun _ _ _ =>
          compileWithin_of_timestamp hd harray htimed
      · have ht : p.isTimestamp = false := by simpa using htimed
        have hstructure : ∀ raw name hidden, p.type.itemType ≠ .embedded raw name hidden :=
          fun raw name hidden hitem => h raw name hidden ⟨hd, ht, hitem⟩
        by_cases hlabel : ∃ label, p.type.itemType = .reference label
        · obtain ⟨label, hitem⟩ := hlabel
          exact .reference hd ht hitem fun _ _ _ => compileWithin_of_reference hd ht hitem
        · have hreference : ∀ label, p.type.itemType ≠ .reference label := not_exists.mp hlabel
          exact .scalar hd harray (.inr ⟨hstructure, hreference⟩) fun _ _ _ =>
            compileWithin_of_scalar hd harray hstructure hreference

theorem compileProperty_limited (s : Surroundings) (limit : Int) (o : Owner) (p : Property) :
    compileProperty (s.limited limit) o p =
      compileWithin (s.limited limit) (limit - o.depth).toNat o p := rfl

theorem compileWithin_flat_error (h : p.IsFlat)
    (he : (compileWithin s levels o p).outcome = .error e) :
    e = .undefinedComparison ∧ ¬ p.Comparable := by
  cases h.leaf with
  | deprecated _ hcompile | array _ _ hcompile =>
    rw [hcompile] at he
    cases he
  | scalar _ _ _ hcompile =>
    rw [hcompile] at he
    obtain ⟨rfl, values, hvalues, hsignals⟩ := compileScalar_error he
    refine ⟨rfl, fun hc => ?_⟩
    rw [hc p values .self hvalues] at hsignals
    cases hsignals
  | reference _ _ _ hcompile =>
    rw [hcompile] at he
    obtain ⟨c, hc⟩ := exists_compileReference s o p _ _
    rw [hc] at he
    cases he

/-- A structure that a property opens is read, and compiled if it has properties and a level is
left. -/
theorem compileWithin_opens (h : p.Opens raw name hidden) :
    compileWithin s levels o p = (do
      let rows ← (Property.ofMapping raw : Traced _)
      if rows.isEmpty then pure { field := (p.bareField o).withScalar .json }
      else match levels with
        | 0 => Traced.fail (tooDeep s o p)
        | levels + 1 => do
          let (fields, types) ← compileAll (compileWithin s levels (o.inside p.name hidden))
            (rows.map (·.2))
          pure
            { field := (p.bareField o).withDerived (derivedName o.name p.name)
              types := types ++ [.anonymous o.name p.name name fields] }) := by
  obtain ⟨hd, ht, hitem⟩ := h
  have harray : p.type ≠ .untypedArray := DeclaredType.ne_untypedArray (hitem.trans_ne nofun)
  rw [compileWithin.eq_def, hd, ht, if_neg Bool.false_ne_true]
  dsimp only
  split
  · exact absurd ‹p.type = .untypedArray› harray
  · rw [hitem]
    rfl

section Opened

variable (ho : p.Opens raw name hidden)
include ho

theorem outcome_of_empty (hr : Property.ofMapping raw = .ok []) :
    (compileWithin s levels o p).outcome = .ok { field := (p.bareField o).withScalar .json } := by
  rw [compileWithin_opens ho, hr]
  rfl

theorem outcome_without_levels (hr : Property.ofMapping raw = .ok rows) (hne : rows ≠ []) :
    (compileWithin s 0 o p).outcome = .error (tooDeep s o p) := by
  have hempty : rows.isEmpty = false := by simpa using hne
  rw [compileWithin_opens ho, hr, Traced.outcome_bind, Traced.outcome_liftM]
  dsimp only [Except.bind]
  rw [hempty]
  rfl

theorem outcome_with_levels (hr : Property.ofMapping raw = .ok rows) (hne : rows ≠ []) :
    (compileWithin s (levels + 1) o p).outcome =
      (compileAll (compileWithin s levels (o.inside p.name hidden)) (rows.map (·.2))).outcome.map
        fun made =>
          { field := (p.bareField o).withDerived (derivedName o.name p.name)
            types := made.2 ++ [.anonymous o.name p.name name made.1] } := by
  have hempty : rows.isEmpty = false := by simpa using hne
  rw [compileWithin_opens ho, hr, Traced.outcome_bind, Traced.outcome_liftM]
  dsimp only [Except.bind]
  rw [hempty, if_neg Bool.false_ne_true, Traced.outcome_bind]
  cases (compileAll (compileWithin s levels (o.inside p.name hidden)) (rows.map (·.2))).outcome <;>
    rfl

end Opened

section Inside

variable (ho : p.Opens raw name hidden) (hr : Property.ofMapping raw = .ok rows) (hne : rows ≠ [])
include ho hr hne

theorem ok_inside (hok : (compileWithin s (levels + 1) o p).outcome = .ok c) :
    ∀ row ∈ rows, ∃ c, (compileWithin s levels (o.inside p.name hidden) row.2).outcome = .ok c := by
  intro row hrow
  rw [outcome_with_levels ho hr hne] at hok
  cases hc : (compileAll (compileWithin s levels (o.inside p.name hidden))
      (rows.map (·.2))).outcome with
  | error e =>
    rw [hc] at hok
    cases hok
  | ok made => exact (compileAll_ok_iff.mp hc).1 row.2 (List.mem_map_of_mem hrow)

end Inside

def placeEntries : Value := .mapping [(.text "latitude", .type .text)]

def addressProperty : Property :=
  { name := .text "address", type := .embedded (.mapping [(.text "place", placeEntries)]) .null [] }

end ModelSchema
