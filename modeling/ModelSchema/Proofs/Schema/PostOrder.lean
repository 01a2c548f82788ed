import Mathlib.Tactic.Choose
import ModelSchema.Proofs.Schema.EmbedDepth

/-!
# Made types in post-order

By itself a declaration stands for nothing, a scalar, a model, or a type that is made for it: an
enumeration, a union or an object. The declarations inside one another form a tree. Main statement:
the types that are made for a property are those that the declarations of its tree stand for, in
post-order and named by the paths that lead to them; an object has the fields that the declarations
inside it compile to.
-/

namespace ModelSchema

variable {s : Surroundings} {o : Owner} {p : Property} {f : Field} {c : Compiled} {levels : Nat}
  {declared : DeclaredType} {raw name : Value} {hidden : List Value}
  {rows : List (Value × Property)}

/-- What a declaration stands for, apart from those inside it. -/
inductive Standing where
  /-- Nothing: the declaration is deprecated, or its type is not known. -/
  | leftOut
  | scalar (kind : ScalarKind)
  | model (name : String)
  | enumeration (values : List Value) (kind : ScalarKind)
  | union (members : List String)
  | object (description : Value)

namespace Standing

/-- The field of a declaration, in the type that it belongs to. -/
def field? (o : Owner) (p : Property) : Standing → Option Field
  | .leftOut => none
  | .scalar kind => some ((p.bareField o).withScalar kind)
  | .model name => some { p.bareField o with typeName := some name }
  | .enumeration _ _ | .union _ | .object _ =>
    some ((p.bareField o).withDerived (derivedName o.name p.name))

/-- The type that is made for a declaration, with its fields if it is an object. -/
def type? (typeName : String) (fields : List (Value × Field)) : Standing → Option TypeDescriptor
  | .leftOut | .scalar _ | .model _ => none
  | .enumeration values kind =>
    some
      { name := .text typeName
        category := .enum
        values := Value.distinct values
        scalarKind := some kind }
  | .union members => some { name := .text typeName, category := .union, members }
  | .object description =>
    some { name := .text typeName, category := .object, description, fields, input := true }

/-- What a declaration compiles to that has none inside. -/
def compiled (o : Owner) (p : Property) (standing : Standing) : Compiled :=
  { field := standing.field? o p
    types := (standing.type? (derivedName o.name p.name) []).toList }

end Standing

namespace Property

/-- The kind that the default generator stands for, or else the declared type. -/
def standingKind? (p : Property) (declared : DeclaredType) : Option ScalarKind :=
  (p.defaultGenerator.bind ScalarKind.ofDeclared?).or declared.scalarKind?

/-- What a declaration of scalars stands for. -/
def scalarStanding (p : Property) (declared : DeclaredType) : Standing :=
  match p.standingKind? declared with
  | none => .leftOut
  | some kind =>
    match p.enum with
    | some (v :: values) => .enumeration (v :: values) kind
    | _ => .scalar kind

/-- What the name of a model, or of several, stands for. -/
def referenceStanding (known : List String) (name : String) : Standing :=
  if (DeclaredType.reference name).isUnion then
    match unionMembers known (DeclaredType.reference name).referenceNames with
    | .ok members => .union members.eraseDups
    | .error _ => .leftOut
  else if known.contains name then .model name else .leftOut

/-- What a declaration stands for with the given type of its items. -/
def itemStanding (p : Property) (known : List String) (empty : Bool) : DeclaredType → Standing
  | .embedded raw description hidden =>
    if p.isTimestamp then p.scalarStanding (.embedded raw description hidden)
    else if empty then .scalar .json
    else .object description
  | .reference name =>
    if p.isTimestamp then p.scalarStanding (.reference name) else referenceStanding known name
  | declared => p.scalarStanding declared

/-- What a declaration stands for. An untyped array stands for free-form values, and so does a
structure that is empty. -/
def standing (p : Property) (known : List String) (empty : Bool) : Standing :=
  if p.deprecated then .leftOut
  else
    match p.type with
    | .untypedArray => .scalar .json
    | type => p.itemStanding known empty type.itemType

theorem standing_of_deprecated {known : List String} {empty : Bool} (h : p.deprecated = true) :
    p.standing known empty = .leftOut :=
  if_pos h

theorem standing_of_array {known : List String} {empty : Bool} (hd : p.deprecated = false)
    (h : p.type = .untypedArray) : p.standing known empty = .scalar .json := by
  unfold standing
  rw [hd, h]
  rfl

theorem standing_of_item {known : List String} {empty : Bool} (hd : p.deprecated = false)
    (h : p.type ≠ .untypedArray) :
    p.standing known empty = p.itemStanding known empty p.type.itemType := by
  unfold standing
  rw [hd, if_neg Bool.false_ne_true]
  split
  · rename_i harray
    exact absurd harray h
  · rfl

theorem standing_of_scalar {known : List String} {empty : Bool} (hd : p.deprecated = false)
    (harray : p.type ≠ .untypedArray)
    (hscalar : p.isTimestamp = true ∨
      (∀ raw name hidden, p.type.itemType ≠ .embedded raw name hidden) ∧
        ∀ label, p.type.itemType ≠ .reference label) :
    p.standing known empty = p.scalarStanding p.type.itemType := by
  rw [standing_of_item hd harray]
  unfold itemStanding
  cases hitem : p.type.itemType with
  | embedded raw name hidden =>
    rcases hscalar with ht | ⟨hstructure, -⟩
    · exact if_pos ht
    · exact absurd hitem (hstructure raw name hidden)
  | reference label =>
    rcases hscalar with ht | ⟨-, hreference⟩
    · exact if_pos ht
    · exact absurd hitem (hreference label)
  | _ => rfl

theorem standing_of_reference {known : List String} {empty : Bool} {label : String}
    (hd : p.deprecated = false) (ht : p.isTimestamp = false)
    (hitem : p.type.itemType = .reference label) :
    p.standing known empty = referenceStanding known label := by
  have harray : p.type ≠ .untypedArray := DeclaredType.ne_untypedArray (hitem.trans_ne nofun)
  rw [standing_of_item hd harray, hitem]
  unfold itemStanding
  dsimp only
  rw [ht, if_neg Bool.false_ne_true]

/-- The names of the fields that are hidden in the structure that a property declares. -/
def hiddenInside (p : Property) : List Value :=
  match p.type.itemType with
  | .embedded _ _ hidden => hidden
  | _ => []

end Property

theorem scalarKind?_outcome (p : Property) (declared : DeclaredType) :
    (scalarKind? p declared).outcome = .ok (p.standingKind? declared) := by
  unfold scalarKind? Property.standingKind?
  cases p.defaultGenerator with
  | none => rfl
  | some generator =>
    rw [Option.bind_some]
    dsimp only
    by_cases hempty : generator = ""
    · have hnone : ScalarKind.ofDeclared? "" = none := by decide +kernel
      rw [if_pos hempty, hempty, hnone]
      rfl
    · rw [if_neg hempty]
      cases ScalarKind.ofDeclared? generator <;> rfl

theorem compileScalar_standing
    (h : (compileScalar s o p (p.bareField o) declared).outcome = .ok c) :
    c = (p.scalarStanding declared).compiled o p := by
  rw [compileScalar, Traced.outcome_bind, scalarKind?_outcome] at h
  unfold Property.scalarStanding
  dsimp only [Except.bind] at h
  cases hkind : p.standingKind? declared with
  | none =>
    rw [hkind] at h
    dsimp only at h
    rw [outcome_leaveOut] at h
    cases h
    rfl
  | some kind =>
    rw [hkind] at h
    cases henum : p.enum with
    | none =>
      rw [henum] at h
      cases h
      rfl
    | some values =>
      rw [henum] at h
      cases values with
      | nil =>
        cases h
        rfl
      | cons v values =>
        obtain ⟨t, ht, h⟩ := Traced.bind_eq_ok.mp h
        cases h
        unfold TypeDescriptor.buildEnumeration at ht
        split at ht
        · cases ht
        · cases ht
          rfl

theorem compileReference_standing {label : String}
    (h : (compileReference s o p (p.bareField o) (.reference label)).outcome = .ok c) :
    c = (Property.referenceStanding s.knownModels label).compiled o p := by
  unfold compileReference at h
  unfold Property.referenceStanding
  by_cases hunion : (DeclaredType.reference label).isUnion = true
  · rw [if_pos hunion] at h ⊢
    cases hm : unionMembers s.knownModels (DeclaredType.reference label).referenceNames with
    | error part =>
      rw [hm] at h
      dsimp only at h
      rw [outcome_leaveOut] at h
      cases h
      rfl
    | ok members =>
      rw [hm] at h
      cases h
      rfl
  · have hlabel : (DeclaredType.reference label).label = label := rfl
    rw [if_neg hunion] at h ⊢
    rw [hlabel] at h
    by_cases hknown : s.knownModels.contains label = true
    · rw [if_pos hknown] at h ⊢
      cases h
      rfl
    · rw [if_neg hknown] at h ⊢
      rw [outcome_leaveOut] at h
      cases h
      rfl

theorem compileWithin_flat_standing (hflat : p.IsFlat)
    (h : (compileWithin s levels o p).outcome = .ok c) :
    c = (p.standing s.knownModels true).compiled o p := by
  cases hflat.leaf with
  | deprecated hd hcompile =>
    rw [hcompile] at h
    rw [Property.standing_of_deprecated hd]
    cases h
    rfl
  | array hkept harray hcompile =>
    rw [hcompile] at h
    rw [Property.standing_of_array hkept harray]
    cases h
    rfl
  | scalar hkept harray hscalar hcompile =>
    rw [hcompile] at h
    rw [Property.standing_of_scalar hkept harray hscalar]
    exact compileScalar_standing h
  | reference hkept hwaits hitem hcompile =>
    rw [hcompile] at h
    rw [Property.standing_of_reference hkept hwaits hitem]
    exact compileReference_standing h

/-- A property that opens a structure stands for an object, or for free-form values if there is
nothing inside. -/
theorem Property.Opens.standing_eq (h : p.Opens raw name hidden) (known : List String)
    (empty : Bool) :
    p.standing known empty = if empty then .scalar .json else .object name := by
  have harray : p.type ≠ .untypedArray := DeclaredType.ne_untypedArray (h.item.trans_ne nofun)
  rw [standing_of_item h.kept harray, h.item]
  unfold itemStanding
  dsimp only
  rw [h.untimed, if_neg Bool.false_ne_true]

/-- A declaration with those inside the structure that it opens. -/
inductive DeclarationTree where
  | node (declaration : Property) (inside : List DeclarationTree)

namespace DeclarationTree

def declaration : DeclarationTree → Property
  | .node p _ => p

def inside : DeclarationTree → List DeclarationTree
  | .node _ inside => inside

/-- A tree goes down to the declarations that open no structure, or an empty one. -/
inductive Whole : DeclarationTree → Prop
  | flat {p : Property} : p.IsFlat → Whole (.node p [])
  | opened {p : Property} {raw name : Value} {hidden : List Value} {rows : List (Value × Property)}
      {inside : List DeclarationTree} :
    p.Opens raw name hidden → Property.ofMapping raw = .ok rows →
      inside.map declaration = rows.map (·.2) → (∀ t ∈ inside, Whole t) → Whole (.node p inside)

/-- What the declaration at the root stands for. -/
def standing (s : Surroundings) (t : DeclarationTree) : Standing :=
  t.declaration.standing s.knownModels t.inside.isEmpty

/-- The field of the declaration at the root. -/
def field? (s : Surroundings) (o : Owner) (t : DeclarationTree) : Option Field :=
  (t.standing s).field? o t.declaration

/-- The fields of the declarations right inside the root, in declaration order. -/
def fieldsInside (s : Surroundings) (typeName : String) (t : DeclarationTree) :
    List (Value × Field) :=
  t.inside.filterMap fun child =>
    (child.field? s { name := typeName, hidden := t.declaration.hiddenInside }).map fun f =>
      (f.name, f)

/-- The type that is made for the declaration at the root. -/
def type? (s : Surroundings) (typeName : String) (t : DeclarationTree) : Option TypeDescriptor :=
  (t.standing s).type? typeName (t.fieldsInside s typeName)

mutual

/-- The subtrees in post-order, each with the names of the declarations that lead to it. -/
def postorder : DeclarationTree → List (List Value × DeclarationTree)
  | .node p inside =>
    (postorderAll inside).map (fun visit => (p.name :: visit.1, visit.2)) ++
      [([p.name], .node p inside)]
termination_by structural t => t

/-- The subtrees of several trees in post-order, one tree behind the other. -/
def postorderAll : List DeclarationTree → List (List Value × DeclarationTree)
  | [] => []
  | t :: rest => t.postorder ++ postorderAll rest
termination_by structural ts => ts

end

theorem postorderAll_eq (inside : List DeclarationTree) :
    postorderAll inside = inside.flatMap postorder := by
  induction inside with
  | nil => rfl
  | cons t rest ih => rw [postorderAll, List.flatMap_cons, ih]

theorem mem_postorder_node {inside : List DeclarationTree} {visit : List Value × DeclarationTree}
    (h : visit ∈ (node p inside).postorder) :
    (∃ t ∈ inside, ∃ inner ∈ t.postorder, visit = (p.name :: inner.1, inner.2)) ∨
      visit = ([p.name], .node p inside) := by
  rw [postorder, postorderAll_eq] at h
  rcases List.mem_append.mp h with h | h
  · obtain ⟨inner, hinner, rfl⟩ := List.mem_map.mp h
    obtain ⟨t, ht, hinner⟩ := List.mem_flatMap.mp hinner
    exact .inl ⟨t, ht, inner, hinner, rfl⟩
  · exact .inr (List.mem_singleton.mp h)

/-- Lists of trees are the same if the trees with the same declarations are. -/
theorem eq_of_map_declaration {ts ts' : List DeclarationTree}
    (h : ts.map declaration = ts'.map declaration)
    (hall : ∀ t ∈ ts, ∀ t' ∈ ts', t.declaration = t'.declaration → t = t') : ts = ts' := by
  induction ts generalizing ts' with
  | nil => exact (List.map_eq_nil_iff.mp h.symm).symm
  | cons t ts ih =>
    cases ts' with
    | nil => cases h
    | cons t' ts' =>
      rw [List.map_cons, List.map_cons, List.cons.injEq] at h
      obtain ⟨hhead, htail⟩ := h
      have hrest := ih htail fun u hu u' hu' =>
        hall u (List.mem_cons_of_mem _ hu) u' (List.mem_cons_of_mem _ hu')
      rw [hall t List.mem_cons_self t' List.mem_cons_self hhead, hrest]

theorem Whole.unique {t t' : DeclarationTree} (h : t.Whole) (h' : t'.Whole)
    (hp : t.declaration = t'.declaration) : t = t' := by
  induction h generalizing t' with
  | @flat p hflat =>
    cases h' with
    | flat _ =>
      cases hp
      rfl
    | opened ho _ _ _ =>
      cases hp
      exact absurd ho (hflat _ _ _)
  | @opened p raw name hidden rows inside ho hr hrows _ ih =>
    cases h' with
    | flat hflat =>
      cases hp
      exact absurd ho (hflat _ _ _)
    | @opened p' raw' name' hidden' rows' inside' ho' hr' hrows' hall' =>
      obtain rfl : p = p' := hp
      rw [ho.raw_eq ho', hr] at hr'
      cases hr'
      have hsame : inside = inside' := by
        apply eq_of_map_declaration (hrows.trans hrows'.symm)
        intro t ht u hu htu
        exact ih t ht (hall' u hu) htu
      rw [hsame]

end DeclarationTree

/-- The name that a path of fields gives to a type, from the type that owns the first of them. -/
def pathName (owner : String) (path : List Value) : String := path.foldl derivedName owner

namespace DeclarationTree

/-- The declaration at the root, as a property of a type, compiles to its field. -/
def CompilesIn (s : Surroundings) (typeName : String) (hidden : List Value)
    (t : DeclarationTree) : Prop :=
  ∃ levels o c, o.name = typeName ∧ o.hidden = hidden ∧
    (compileWithin s levels o t.declaration).outcome = .ok c ∧ c.field = t.field? s o

/-- A property compiles to the field of the root of its tree and to the types that its subtrees
stand for; what is right inside a subtree compiles too. -/
structure Yields (s : Surroundings) (o : Owner) (t : DeclarationTree) (c : Compiled) : Prop where
  field_eq : c.field = t.field? s o
  types_eq : c.types =
    t.postorder.filterMap fun visit => visit.2.type? s (pathName o.name visit.1)
  inside : ∀ visit ∈ t.postorder, ∀ child ∈ visit.2.inside,
    child.CompilesIn s (pathName o.name visit.1) visit.2.declaration.hiddenInside

theorem Yields.of_leaf (o : Owner) (p : Property) :
    (node p []).Yields s o ((p.standing s.knownModels true).compiled o p) := by
  refine ⟨rfl, ?_, ?_⟩
  · rfl
  · intro visit hvisit child hchild
    rcases mem_postorder_node hvisit with ⟨t, ht, -⟩ | rfl
    · cases ht
    · cases hchild

section Inside

variable {props : List Property} {tree : Property → DeclarationTree} {result : Property → Compiled}

theorem standing_of_inside (ho : p.Opens raw name hidden) (hne : props ≠ []) :
    (node p (props.map tree)).standing s = .object name := by
  have hempty : (props.map tree).isEmpty = false := by simpa using hne
  change p.standing s.knownModels (props.map tree).isEmpty = _
  rw [ho.standing_eq, hempty]
  rfl

variable (hall : ∀ q ∈ props, (tree q).Yields s (o.inside p.name hidden) (result q))
include hall

theorem fieldsInside_eq (hhidden : p.hiddenInside = hidden) :
    (node p (props.map tree)).fieldsInside s (derivedName o.name p.name) =
      fieldRows result props := by
  change (props.map tree).filterMap _ = _
  unfold fieldRows
  rw [List.filterMap_map]
  apply List.filterMap_congr
  intro q hq
  rw [(hall q hq).field_eq]
  change Option.map _ ((tree q).field? s { name := _, hidden := p.hiddenInside }) = _
  rw [hhidden]
  rfl

theorem madeTypes_eq :
    madeTypes result props = (postorderAll (props.map tree)).filterMap fun visit =>
      visit.2.type? s (pathName (derivedName o.name p.name) visit.1) := by
  unfold madeTypes
  rw [postorderAll_eq, List.filterMap_flatMap, List.flatMap_map]
  apply List.flatMap_congr
  intro q hq
  exact (hall q hq).types_eq

/-- The tree of a structure yields an object behind what the trees inside yield. -/
theorem Yields.of_inside (ho : p.Opens raw name hidden) (hne : props ≠ [])
    (hcompiles : ∀ q ∈ props, (tree q).CompilesIn s (derivedName o.name p.name) hidden) :
    (node p (props.map tree)).Yields s o
      { field := (p.bareField o).withDerived (derivedName o.name p.name)
        types := madeTypes result props ++
          [.anonymous o.name p.name name (fieldRows result props)] } := by
  have hstanding : (node p (props.map tree)).standing s = .object name := standing_of_inside ho hne
  have hhidden : p.hiddenInside = hidden := by
    unfold Property.hiddenInside
    rw [ho.item]
  refine ⟨?_, ?_, ?_⟩
  · unfold field?
    rw [hstanding]
    rfl
  · have hroot : (node p (props.map tree)).type? s (derivedName o.name p.name) =
        some (.anonymous o.name p.name name (fieldRows result props)) := by
      unfold type?
      rw [hstanding, fieldsInside_eq hall hhidden]
      rfl
    have hlast : List.filterMap (fun visit => type? s (pathName o.name visit.1) visit.2)
        [([p.name], node p (props.map tree))] =
          [.anonymous o.name p.name name (fieldRows result props)] := List.filterMap_cons_some hroot
    rw [postorder, List.filterMap_append, List.filterMap_map, hlast, madeTypes_eq hall]
    rfl
  · intro visit hvisit child hchild
    rcases mem_postorder_node hvisit with ⟨t, ht, inner, hinner, rfl⟩ | rfl
    · obtain ⟨q, hq, rfl⟩ := List.mem_map.mp ht
      exact (hall q hq).inside inner hinner child hchild
    · obtain ⟨q, hq, rfl⟩ := List.mem_map.mp hchild
      change (tree q).CompilesIn s (derivedName o.name p.name) p.hiddenInside
      rw [hhidden]
      exact hcompiles q hq

end Inside

end DeclarationTree

theorem exists_read_of_ok (ho : p.Opens raw name hidden)
    (h : (compileWithin s levels o p).outcome = .ok c) :
    ∃ rows, Property.ofMapping raw = .ok rows := by
  cases hr : Property.ofMapping raw with
  | ok rows => exact ⟨rows, rfl⟩
  | error e =>
    rw [compileWithin_opens ho, hr] at h
    cases h

section Inside

variable (ho : p.Opens raw name hidden) (hr : Property.ofMapping raw = .ok rows) (hne : rows ≠ [])
  (h : (compileWithin s (levels + 1) o p).outcome = .ok c)
include ho hr hne h

/-- What a structure compiles to, from what its properties compile to. -/
theorem eq_of_ok_inside {result : Property → Compiled}
    (hresult : ∀ q, result q =
      .ofOutcome (compileWithin s levels (o.inside p.name hidden) q).outcome) :
    c =
      { field := (p.bareField o).withDerived (derivedName o.name p.name)
        types := madeTypes result (rows.map (·.2)) ++
          [.anonymous o.name p.name name (fieldRows result (rows.map (·.2)))] } := by
  obtain rfl : result = fun q =>
      .ofOutcome (compileWithin s levels (o.inside p.name hidden) q).outcome := funext hresult
  rw [outcome_with_levels ho hr hne] at h
  cases hmade : (compileAll (compileWithin s levels (o.inside p.name hidden))
      (rows.map (·.2))).outcome with
  | error e =>
    rw [hmade] at h
    cases h
  | ok made =>
    obtain ⟨fields, types⟩ := made
    obtain ⟨-, rfl, rfl⟩ := compileAll_ok_iff.mp hmade
    rw [hmade] at h
    cases h
    rfl

theorem exists_tree_of_inside
    (htrees : ∀ row ∈ rows, ∀ made,
      (compileWithin s levels (o.inside p.name hidden) row.2).outcome = .ok made →
        ∃ t : DeclarationTree, t.declaration = row.2 ∧ t.Whole ∧
          t.Yields s (o.inside p.name hidden) made) :
    ∃ t : DeclarationTree, t.declaration = p ∧ t.Whole ∧ t.Yields s o c := by
  let result : Property → Compiled := fun q =>
    .ofOutcome (compileWithin s levels (o.inside p.name hidden) q).outcome
  have hall : ∀ q ∈ rows.map (·.2),
      (compileWithin s levels (o.inside p.name hidden) q).outcome = .ok (result q) ∧
        ∃ t : DeclarationTree, t.declaration = q ∧ t.Whole ∧
          t.Yields s (o.inside p.name hidden) (result q) := by
    intro q hq
    obtain ⟨row, hrow, rfl⟩ := List.mem_map.mp hq
    obtain ⟨made, hmade⟩ := ok_inside ho hr hne h row hrow
    have hresult : result row.2 = made := congrArg Compiled.ofOutcome hmade
    rw [hresult]
    exact ⟨hmade, htrees row hrow made hmade⟩
  -- a tree for each property inside, in the order of the properties
  have : Nonempty DeclarationTree := ⟨.node p []⟩
  choose! hcompiled tree hdeclaration hwhole hyields using hall
  refine ⟨.node p ((rows.map (·.2)).map tree), rfl, ?_, ?_⟩
  · apply DeclarationTree.Whole.opened ho hr
    · rw [List.map_map]
      apply (List.map_congr_left hdeclaration).trans
      exact List.map_id _
    · intro t ht
      obtain ⟨q, hq, rfl⟩ := List.mem_map.mp ht
      exact hwhole q hq
  · rw [eq_of_ok_inside ho hr hne h fun _ => rfl]
    apply DeclarationTree.Yields.of_inside hyields ho (by simpa using hne)
    intro q hq
    refine ⟨levels, o.inside p.name hidden, result q, rfl, rfl, ?_, (hyields q hq).field_eq⟩
    rw [hdeclaration q hq]
    exact hcompiled q hq

end Inside

/-- A property that compiles has a tree that yields what it compiles to. -/
theorem compileWithin_yields (h : (compileWithin s levels o p).outcome = .ok c) :
    ∃ t : DeclarationTree, t.declaration = p ∧ t.Whole ∧ t.Yields s o c := by
  -- only a structure with properties takes a level, so the others come before the levels are split
  induction levels using Nat.strongRecOn generalizing o p c with
  | ind levels ih =>
    rcases p.isFlat_or_opens with hflat | ⟨raw, name, hidden, ho⟩
    · refine ⟨.node p [], rfl, .flat hflat, ?_⟩
      rw [compileWithin_flat_standing hflat h]
      exact .of_leaf o p
    · obtain ⟨rows, hr⟩ := exists_read_of_ok ho h
      by_cases hne : rows = []
      · rw [hne] at hr
        have hc : c = (p.standing s.knownModels true).compiled o p := by
          rw [outcome_of_empty ho hr] at h
          rw [ho.standing_eq]
          cases h
          rfl
        refine ⟨.node p [], rfl, .opened ho hr rfl fun t ht => (by cases ht), ?_⟩
        rw [hc]
        exact .of_leaf o p
      · cases levels with
        | zero =>
          rw [outcome_without_levels ho hr hne] at h
          cases h
        | succ levels =>
          apply exists_tree_of_inside ho hr hne h
          intro row _ made hmade
          exact ih levels (Nat.lt_succ_self levels) hmade

end ModelSchema
