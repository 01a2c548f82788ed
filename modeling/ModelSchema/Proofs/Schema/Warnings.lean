import ModelSchema.Proofs.Schema.PostOrder

/-!
# Warnings about what is left out

A declaration whose type is not known has no field, and its compilation says so in a warning unless
the settings forbid it. Main statement: the warnings of a compilation that succeeds are one for each
declaration of its tree that has no field and is not deprecated, in the order of the traversal.
Where warnings are off there are none, and the outcome is the same as where they are on.
-/

namespace ModelSchema

variable {α β : Type} {s : Surroundings} {o : Owner} {p : Property} {f : Field} {c : Compiled}
  {levels : Nat} {declared : DeclaredType} {raw name : Value} {hidden : List Value}
  {rows : List (Value × Property)} {label : String}

namespace Traced

/-- The warnings among the events of a computation, in their order. -/
def warnings (x : Traced α) : List Event := x.events.filter Event.isWarning

@[simp] theorem warnings_liftM (x : Except Failure α) : (liftM x : Traced α).warnings = [] := rfl

variable {x : Traced α} {next : α → Traced β}

theorem warnings_bind_of_ok {a : α} (h : x.outcome = .ok a) :
    (x >>= next).warnings = x.warnings ++ (next a).warnings := by
  rw [bind_eq, bind, h]
  exact List.filter_append ..

theorem warnings_bind_of_error {e : Failure} (h : x.outcome = .error e) :
    (x >>= next).warnings = x.warnings := by
  rw [bind_eq, bind, h]
  rfl

theorem warnings_bind_of_quiet (h : ∀ a, x.outcome = .ok a → (next a).warnings = []) :
    (x >>= next).warnings = x.warnings := by
  cases hx : x.outcome with
  | error e => exact warnings_bind_of_error hx
  | ok a => rw [warnings_bind_of_ok hx, h a hx, List.append_nil]

end Traced

/-- The surroundings with another value of the setting that turns warnings on. -/
def Surroundings.warning (s : Surroundings) (flag : Value) : Surroundings :=
  { s with settings := { s.settings with warnUnresolvedTypes := flag } }

/-- Warnings about what is left out are on. -/
def Surroundings.Warns (s : Surroundings) : Prop := s.settings.warnUnresolvedTypes.isTrue = true

/-- The warning that a property is left out, where warnings are on. -/
def omissionWarnings (s : Surroundings) (o : Owner) (p : Property) (label : String) : List Event :=
  if s.settings.warnUnresolvedTypes.isTrue then [.typeUnresolved o.name p.name label] else []

/-- The warnings of a declaration, given what it stands for. -/
def Standing.warnings (s : Surroundings) (o : Owner) (p : Property) (label : String) :
    Standing → List Event
  | .leftOut => omissionWarnings s o p label
  | _ => []

/-- How a warning calls the type that is not known: by its name, or of several models by the first
that is neither known nor a scalar. -/
def Property.unresolvedLabel (p : Property) (known : List String) : String :=
  let declared := p.type.itemType
  if declared.isUnion then
    (declared.referenceNames.find? fun part => (unionMember? known part).isNone).getD declared.label
  else declared.label

theorem leaveOut_warnings (s : Surroundings) (o : Owner) (p : Property) (label : String) :
    (leaveOut s o p label).warnings = omissionWarnings s o p label := by
  unfold leaveOut omissionWarnings
  split <;> rfl

theorem scalarKind?_warnings (p : Property) (declared : DeclaredType) :
    (scalarKind? p declared).warnings = [] := by
  unfold scalarKind?
  cases p.defaultGenerator with
  | none => rfl
  | some generator =>
    dsimp only
    split
    · rfl
    · cases ScalarKind.ofDeclared? generator <;> rfl

theorem compileScalar_warnings (s : Surroundings) (o : Owner) (p : Property) (f : Field)
    (declared : DeclaredType) :
    (compileScalar s o p f declared).warnings =
      (p.scalarStanding declared).warnings s o p declared.label := by
  rw [compileScalar, Traced.warnings_bind_of_ok (scalarKind?_outcome p declared),
    scalarKind?_warnings, List.nil_append]
  unfold Property.scalarStanding
  cases p.standingKind? declared with
  | none => exact leaveOut_warnings s o p declared.label
  | some kind =>
    dsimp only
    cases p.enum with
    | none => rfl
    | some values =>
      cases values with
      | nil => rfl
      | cons v values =>
        dsimp only
        rw [Traced.warnings_bind_of_quiet fun _ _ => rfl]
        rfl

theorem unionMembers_error {known parts : List String} {part : String}
    (h : unionMembers known parts = .error part) :
    (parts.find? fun part => (unionMember? known part).isNone) = some part := by
  induction parts with
  | nil => cases h
  | cons first rest ih =>
    rw [unionMembers] at h
    cases hfirst : unionMember? known first with
    | none =>
      rw [hfirst] at h
      cases h
      exact List.find?_cons_of_pos (by rw [hfirst]; rfl)
    | some member =>
      rw [hfirst] at h
      rw [List.find?_cons_of_neg (by rw [hfirst]; exact Bool.false_ne_true)]
      cases hrest : unionMembers known rest with
      | error part' =>
        rw [hrest] at h
        cases h
        exact ih hrest
      | ok members =>
        rw [hrest] at h
        cases h

theorem compileReference_warnings (hitem : p.type.itemType = .reference label) :
    (compileReference s o p f (.reference label)).warnings =
      (Property.referenceStanding s.knownModels label).warnings s o p
        (p.unresolvedLabel s.knownModels) := by
  unfold compileReference Property.referenceStanding Property.unresolvedLabel
  rw [hitem]
  dsimp only
  by_cases hunion : (DeclaredType.reference label).isUnion = true
  · rw [if_pos hunion, if_pos hunion, if_pos hunion]
    cases hm : unionMembers s.knownModels (DeclaredType.reference label).referenceNames with
    | error part =>
      rw [unionMembers_error hm]
      exact leaveOut_warnings s o p part
    | ok members => rfl
  · rw [if_neg hunion, if_neg hunion, if_neg hunion]
    change (if s.knownModels.contains label = true then _ else _ : Traced Compiled).warnings = _
    by_cases hknown : s.knownModels.contains label = true
    · rw [if_pos hknown, if_pos hknown]
      rfl
    · rw [if_neg hknown, if_neg hknown]
      exact leaveOut_warnings s o p label

theorem Property.scalarStanding_of_timestamp (h : p.isTimestamp = true) (label : String) :
    (p.scalarStanding declared).warnings s o p label = [] := by
  have hgenerator : p.defaultGenerator = some timestampGenerator := by
    simpa [Property.isTimestamp] using h
  have hdate : ScalarKind.ofDeclared? timestampGenerator = some .date := by decide +kernel
  have hkind : p.standingKind? declared = some .date := by
    unfold Property.standingKind?
    rw [hgenerator, Option.bind_some, hdate, Option.some_or]
  unfold Property.scalarStanding
  rw [hkind]
  dsimp only
  split <;> rfl

/-- A type of items that names no models is called by its own label. -/
theorem Property.unresolvedLabel_of_not_reference {known : List String}
    (h : ∀ name, p.type.itemType ≠ .reference name) :
    p.unresolvedLabel known = p.type.itemType.label := by
  unfold Property.unresolvedLabel
  cases hitem : p.type.itemType with
  | reference name => exact absurd hitem (h name)
  | _ => rfl

/-- A property that opens no structure warns if it stands for nothing and is not deprecated. -/
theorem compileWithin_flat_warnings (hflat : p.IsFlat) :
    (compileWithin s levels o p).warnings =
      if p.deprecated then []
      else (p.standing s.knownModels true).warnings s o p (p.unresolvedLabel s.knownModels) := by
  cases hflat.leaf with
  | deprecated hd hcompile =>
    rw [hcompile, if_pos hd]
    rfl
  | array hkept harray hcompile =>
    rw [hcompile, hkept, Property.standing_of_array hkept harray]
    rfl
  | scalar hkept harray hscalar hcompile =>
    rw [hcompile, compileScalar_warnings, hkept, if_neg Bool.false_ne_true,
      Property.standing_of_scalar hkept harray hscalar]
    rcases hscalar with htimed | ⟨-, hreference⟩
    · rw [Property.scalarStanding_of_timestamp htimed, Property.scalarStanding_of_timestamp htimed]
    · rw [Property.unresolvedLabel_of_not_reference hreference]
  | reference hkept hwaits hitem hcompile =>
    rw [hcompile, hkept, if_neg Bool.false_ne_true,
      Property.standing_of_reference hkept hwaits hitem]
    exact compileReference_warnings hitem

theorem compileAll_warnings {compile : Property → Traced Compiled} {props : List Property}
    {made : List (Value × Field) × List TypeDescriptor}
    (h : (compileAll compile props).outcome = .ok made) :
    (compileAll compile props).warnings = props.flatMap fun q => (compile q).warnings := by
  induction props generalizing made with
  | nil => rfl
  | cons q props ih =>
    rw [compileAll] at h ⊢
    obtain ⟨c, hc, h⟩ := Traced.bind_eq_ok.mp h
    obtain ⟨rest, hrest, -⟩ := Traced.bind_eq_ok.mp h
    rw [Traced.warnings_bind_of_ok hc, Traced.warnings_bind_of_quiet fun _ _ => rfl, ih hrest,
      List.flatMap_cons]

theorem compileAll_quiet {compile : Property → Traced Compiled} {props : List Property}
    (h : ∀ q ∈ props, (compile q).warnings = []) : (compileAll compile props).warnings = [] := by
  induction props with
  | nil => rfl
  | cons q props ih =>
    have hrest := ih fun q' hq' => h q' (List.mem_cons_of_mem _ hq')
    rw [compileAll, Traced.warnings_bind_of_quiet, h q List.mem_cons_self]
    intro c _
    rw [Traced.warnings_bind_of_quiet fun _ _ => rfl, hrest]

section Opened

variable (ho : p.Opens raw name hidden)
include ho

theorem warnings_of_unread {e : Failure} (hr : Property.ofMapping raw = .error e) :
    (compileWithin s levels o p).warnings = [] := by
  rw [compileWithin_opens ho, hr]
  rfl

theorem warnings_of_empty (hr : Property.ofMapping raw = .ok []) :
    (compileWithin s levels o p).warnings = [] := by
  rw [compileWithin_opens ho, hr]
  rfl

theorem warnings_without_levels (hr : Property.ofMapping raw = .ok rows) (hne : rows ≠ []) :
    (compileWithin s 0 o p).warnings = [] := by
  have hempty : rows.isEmpty = false := by simpa using hne
  rw [compileWithin_opens ho, hr, Traced.warnings_bind_of_ok rfl, hempty]
  rfl

theorem warnings_with_levels (hr : Property.ofMapping raw = .ok rows) (hne : rows ≠ []) :
    (compileWithin s (levels + 1) o p).warnings =
      (compileAll (compileWithin s levels (o.inside p.name hidden)) (rows.map (·.2))).warnings := by
  have hempty : rows.isEmpty = false := by simpa using hne
  rw [compileWithin_opens ho, hr, Traced.warnings_bind_of_ok rfl, hempty,
    if_neg Bool.false_ne_true, Traced.warnings_liftM, List.nil_append]
  exact Traced.warnings_bind_of_quiet fun _ _ => rfl

end Opened

theorem compileWithin_quiet (h : ¬ s.Warns) : (compileWithin s levels o p).warnings = [] := by
  induction levels using Nat.strongRecOn generalizing o p with
  | ind levels ih =>
    rcases p.isFlat_or_opens with hflat | ⟨raw, name, hidden, ho⟩
    · have homission : ∀ label, omissionWarnings s o p label = [] := fun label => if_neg h
      rw [compileWithin_flat_warnings hflat]
      split
      · rfl
      · cases p.standing s.knownModels true with
        | leftOut => exact homission _
        | _ => rfl
    · cases hr : Property.ofMapping raw with
      | error e => exact warnings_of_unread ho hr
      | ok rows =>
        by_cases hne : rows = []
        · exact warnings_of_empty ho (hne ▸ hr)
        · cases levels with
          | zero => exact warnings_without_levels ho hr hne
          | succ levels =>
            rw [warnings_with_levels ho hr hne]
            exact compileAll_quiet fun q _ => ih levels (Nat.lt_succ_self levels)

theorem compileAll_outcome_congr {compile compile' : Property → Traced Compiled}
    {props : List Property} (h : ∀ q ∈ props, (compile' q).outcome = (compile q).outcome) :
    (compileAll compile' props).outcome = (compileAll compile props).outcome := by
  induction props with
  | nil => rfl
  | cons q props ih =>
    have hrest := ih fun q' hq' => h q' (List.mem_cons_of_mem _ hq')
    rw [compileAll, compileAll, Traced.outcome_bind, Traced.outcome_bind, h q List.mem_cons_self]
    congr 1
    funext c
    rw [Traced.outcome_bind, Traced.outcome_bind, hrest]

theorem compileReference_outcome_warning (flag : Value) :
    (compileReference (s.warning flag) o p f declared).outcome =
      (compileReference s o p f declared).outcome := by
  have hknown : (s.warning flag).knownModels = s.knownModels := rfl
  unfold compileReference
  rw [hknown]
  split
  · split
    · rw [outcome_leaveOut, outcome_leaveOut]
    · rfl
  · split
    · rfl
    · rw [outcome_leaveOut, outcome_leaveOut]

theorem compileWithin_outcome_warning (flag : Value) :
    (compileWithin (s.warning flag) levels o p).outcome = (compileWithin s levels o p).outcome := by
  induction levels using Nat.strongRecOn generalizing o p with
  | ind levels ih =>
    rcases p.isFlat_or_opens with hflat | ⟨raw, name, hidden, ho⟩
    · cases hflat.leaf with
      | deprecated _ hcompile | array _ _ hcompile => rw [hcompile, hcompile]
      | scalar _ _ _ hcompile =>
        rw [hcompile, hcompile]
        exact compileScalar_outcome_congr ..
      | reference _ _ _ hcompile =>
        rw [hcompile, hcompile]
        exact compileReference_outcome_warning flag
    · cases hr : Property.ofMapping raw with
      | error e =>
        rw [compileWithin_opens ho, compileWithin_opens ho, hr]
        rfl
      | ok rows =>
        by_cases hne : rows = []
        · rw [hne] at hr
          rw [outcome_of_empty ho hr, outcome_of_empty ho hr]
        · cases levels with
          | zero =>
            rw [outcome_without_levels ho hr hne, outcome_without_levels ho hr hne]
            rfl
          | succ levels =>
            rw [outcome_with_levels ho hr hne, outcome_with_levels ho hr hne,
              compileAll_outcome_congr fun q _ => ih levels (Nat.lt_succ_self levels)]

namespace DeclarationTree

/-- The warning of the declaration at the root, which a path of fields leads to from the type that
owns the first of them: none if the declaration is deprecated or has a field. -/
def warning? (s : Surroundings) (owner : String) (path : List Value) (t : DeclarationTree) :
    Option Event :=
  let o : Owner := { name := pathName owner path.dropLast }
  if t.declaration.deprecated || (t.field? s o).isSome then none
  else
    some (.typeUnresolved o.name t.declaration.name (t.declaration.unresolvedLabel s.knownModels))

theorem path_ne_nil {t : DeclarationTree} {visit : List Value × DeclarationTree}
    (h : visit ∈ t.postorder) : visit.1 ≠ [] := by
  obtain ⟨p, inside⟩ := t
  rcases mem_postorder_node h with ⟨t, -, inner, -, rfl⟩ | rfl
  · exact List.cons_ne_nil _ _
  · exact List.cons_ne_nil _ _

theorem warning?_of_field {t : DeclarationTree} {owner : String} {path : List Value}
    (h : ∀ o, (t.field? s o).isSome = true) : t.warning? s owner path = none := by
  unfold warning?
  dsimp only
  rw [h, Bool.or_true, if_pos rfl]

/-- A path is shortened from the end, so it may be entered from its first field. -/
theorem warning?_cons {t : DeclarationTree} {owner : String} {path : List Value} (field : Value)
    (h : path ≠ []) :
    t.warning? s owner (field :: path) = t.warning? s (derivedName owner field) path := by
  have hname : pathName owner (field :: path).dropLast =
      pathName (derivedName owner field) path.dropLast := by
    rw [List.dropLast_cons_of_ne_nil h]
    rfl
  unfold warning?
  rw [hname]

theorem warnings_of_leaf (hs : s.Warns) (hflat : p.IsFlat) :
    (compileWithin s levels o p).warnings =
      ((node p []).warning? s o.name [p.name]).toList := by
  have homission : ∀ label, omissionWarnings s o p label = [.typeUnresolved o.name p.name label] :=
    fun label => if_pos hs
  rw [compileWithin_flat_warnings hflat]
  unfold warning?
  change _ = (if (p.deprecated || ((p.standing s.knownModels true).field? _ p).isSome) = true
    then none
    else some (Event.typeUnresolved o.name p.name (p.unresolvedLabel s.knownModels))).toList
  cases p.deprecated with
  | true => rfl
  | false =>
    rw [if_neg Bool.false_ne_true, Bool.false_or]
    cases p.standing s.knownModels true with
    | leftOut => exact homission _
    | _ => rfl

/-- A compilation that succeeds warns of the declarations of the tree that are left out. -/
theorem Whole.warnings_eq {t : DeclarationTree} (h : t.Whole) (hs : s.Warns)
    (hok : (compileWithin s levels o t.declaration).outcome = .ok c) :
    (compileWithin s levels o t.declaration).warnings =
      t.postorder.filterMap fun visit => visit.2.warning? s o.name visit.1 := by
  induction h generalizing levels o c with
  | @flat p hflat =>
    have hpostorder : (node p []).postorder = [([p.name], node p [])] := rfl
    rw [declaration, warnings_of_leaf hs hflat, hpostorder, List.filterMap_cons]
    dsimp only
    cases (node p []).warning? s o.name [p.name] <;> rfl
  | @opened p raw name hidden rows inside ho hr hrows _ ih =>
    -- the root has a field, so only the declarations inside count
    have hfield : ∀ o, ((node p inside).field? s o).isSome = true := by
      intro o
      change ((p.standing s.knownModels inside.isEmpty).field? o p).isSome = true
      rw [ho.standing_eq]
      cases inside.isEmpty <;> rfl
    have hroot : List.filterMap (fun visit => warning? s o.name visit.1 visit.2)
        [([p.name], node p inside)] = [] := List.filterMap_cons_none (warning?_of_field hfield)
    have hpostorder : ((node p inside).postorder.filterMap fun visit =>
        visit.2.warning? s o.name visit.1) = (postorderAll inside).filterMap fun visit =>
          visit.2.warning? s (derivedName o.name p.name) visit.1 := by
      rw [postorder, List.filterMap_append, hroot, List.append_nil, List.filterMap_map,
        postorderAll_eq]
      apply List.filterMap_congr
      intro visit hvisit
      obtain ⟨t, -, hvisit⟩ := List.mem_flatMap.mp hvisit
      exact warning?_cons p.name (path_ne_nil hvisit)
    rw [hpostorder, postorderAll_eq, List.filterMap_flatMap]
    rw [declaration] at hok ⊢
    by_cases hne : rows = []
    · rw [hne] at hr hrows
      rw [List.map_eq_nil_iff.mp hrows]
      exact warnings_of_empty ho hr
    · cases levels with
      | zero =>
        rw [outcome_without_levels ho hr hne] at hok
        cases hok
      | succ levels =>
        have hcompiled : ∀ q ∈ rows.map (·.2),
            ∃ c, (compileWithin s levels (o.inside p.name hidden) q).outcome = .ok c := by
          intro q hq
          obtain ⟨row, hrow, rfl⟩ := List.mem_map.mp hq
          exact ok_inside ho hr hne hok row hrow
        have hmade := compileAll_ok_iff.mpr ⟨hcompiled, rfl, rfl⟩
        rw [warnings_with_levels ho hr hne, compileAll_warnings hmade, ← hrows, List.flatMap_map]
        apply List.flatMap_congr
        intro t ht
        have hdeclared : t.declaration ∈ rows.map (·.2) := hrows ▸ List.mem_map_of_mem ht
        obtain ⟨c, hc⟩ := hcompiled t.declaration hdeclared
        exact ih t ht hc

end DeclarationTree

/-- With the warnings on, a property that compiles has a tree whose declarations compile to what
they stand for, and the warnings are, in post-order, one for each declaration of the tree that is
not deprecated and has no field, by the type that owns it, its name, and its type. With the warnings
off there are none, whatever the outcome. The outcome does not depend on the setting. -/
theorem compileProperty_warnings (s : Surroundings) (o : Owner) (p : Property) :
    (s.Warns → ∀ c, (compileProperty s o p).outcome = .ok c →
      ∃! t : DeclarationTree, (t.declaration = p ∧ t.Whole) ∧ t.Yields s o c ∧
        (compileProperty s o p).warnings =
          t.postorder.filterMap fun visit => visit.2.warning? s o.name visit.1) ∧
      (¬ s.Warns → (compileProperty s o p).warnings = []) ∧
      ∀ flag, (compileProperty (s.warning flag) o p).outcome = (compileProperty s o p).outcome := by
  refine ⟨?_, compileWithin_quiet, fun flag => compileWithin_outcome_warning flag⟩
  intro hs c h
  obtain ⟨t, rfl, hwhole, hyields⟩ := compileWithin_yields h
  refine ⟨t, ⟨⟨rfl, hwhole⟩, hyields, hwhole.warnings_eq hs h⟩, ?_⟩
  rintro t' ⟨⟨hp', hwhole'⟩, -⟩
  exact hwhole'.unique hwhole hp'

/-- A parcel from a model that is not known, with a label that is no longer in use, a payer of whom
only one part is known, and a weight. -/
def parcelProperty : Property :=
  { name := .text "parcel"
    type := .embedded
      (.mapping
        [(.text "sender", .text "Ghost"),
         (.text "label",
           .mapping [(.text "type", .text "Ghost"), (.text "deprecated", .bool true)]),
         (.text "payer", .text "Order|Imp|Ghost"),
         (.text "weight", .type .real)]) .null [] }

theorem compileProperty_warnings_parcel :
    let s : Surroundings := { knownModels := ["Order"] }
    let order : Owner := { name := "Order" }
    let x := compileProperty s order parcelProperty
    s.Warns ∧
      x.warnings.map Event.message =
        ["Skipping Order_parcel.sender: type 'Ghost' is neither a scalar nor a known model",
         "Skipping Order_parcel.payer: type 'Imp' is neither a scalar nor a known model"] ∧
      (∃ c, x.outcome = .ok c ∧
        ∃ t : DeclarationTree, t.declaration = parcelProperty ∧ t.Whole ∧
          x.warnings = t.postorder.filterMap fun visit => visit.2.warning? s "Order" visit.1) ∧
      ¬ (s.warning (.bool false)).Warns ∧
      (compileProperty (s.warning (.bool false)) order parcelProperty).warnings = [] ∧
      (compileProperty (s.warning (.bool false)) order parcelProperty).outcome = x.outcome := by
  intro s order x
  have hs : s.Warns := rfl
  have hquiet : ¬ (s.warning (.bool false)).Warns := Bool.false_ne_true
  obtain ⟨hwarnings, -, hsame⟩ := compileProperty_warnings s order parcelProperty
  obtain ⟨-, hnone, -⟩ := compileProperty_warnings (s.warning (.bool false)) order parcelProperty
  have hcompiles : x.outcome.isOk = true := by decide +kernel
  obtain ⟨c, hc⟩ := exists_of_isOk hcompiles
  obtain ⟨t, ⟨⟨hp, hwhole⟩, -, htree⟩, -⟩ := hwarnings hs c hc
  exact ⟨hs, by decide +kernel, ⟨c, hc, t, hp, hwhole, htree⟩, hquiet, hnone hquiet,
    hsame (.bool false)⟩

end ModelSchema
