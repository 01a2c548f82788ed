import ModelSchema.Proofs.Schema.Declarations
import ModelSchema.Proofs.Schema.EmbedDepth

/-!
# Structures that contain themselves

A knot is a structure without end: each level has the same properties and, under the key of the
knot, the same structure again. Structures are read one level at a time, so a compilation never
looks further into a knot than its limit allows, and cannot tell the knot from a finite structure
that repeats as many levels. Main statement: both nest too deep, and fail on the first level beyond
the limit, provided that the properties in front of the key compile on the levels above.
-/

namespace ModelSchema

variable {s : Surroundings} {o : Owner} {p q : Property} {key name v : Value} {n levels : Nat}
  {before after entries : List (Value × Value)} {front back rows : List (Value × Property)}
  {form : KnotForm} {limit : Int} {e : Failure}

/-- What a knot has under its key: itself, or a mapping with itself as `type`. -/
def KnotForm.wrap (form : KnotForm) (v : Value) : Value :=
  match form with
  | .direct => v
  | .wrapped | .wrapper => .mapping [(.text "type", v)]

/-- The first `n` levels of a knot around an innermost value that stands for the rest. -/
def Value.unfolded (before : List (Value × Value)) (key : Value) (after : List (Value × Value))
    (form : KnotForm) (innermost : Value) : Nat → Value
  | 0 => innermost
  | n + 1 =>
    .mapping (before ++ (key, form.wrap (unfolded before key after form innermost n)) :: after)

/-- A key is none of those that describe a structure rather than a property inside it. -/
def Value.NamesProperty (key : Value) : Prop := key ≠ .text "type" ∧ key ≠ .text "properties"

/-- A mapping that is a structure by all of itself, with the given entries as its properties. -/
structure Value.DeclaresAll (v : Value) (entries : List (Value × Value)) : Prop where
  entries_eq : v.entries? = some entries
  named : ∀ entry ∈ entries, entry.1.NamesProperty

namespace Value.DeclaresAll

variable (h : v.DeclaresAll entries)
include h

theorem member_eq_none {word : String} (hw : word = "type" ∨ word = "properties") :
    v.member? word = none := by
  unfold Value.member?
  rw [h.entries_eq]
  apply Table.find?_eq_none_iff.mpr
  intro entry hentry
  apply Bool.eq_false_iff.mpr
  intro hkey
  have heq : entry.1 = .text word := Value.eq_of_beq_text hkey
  obtain ⟨htype, hproperties⟩ := h.named entry hentry
  rcases hw with rfl | rfl
  · exact htype heq
  · exact hproperties heq

theorem ofValue_eq : DeclaredType.ofValue v = .ok (.embedded v .null []) := by
  have hnone := h.member_eq_none (.inr rfl)
  have hentries := h.entries_eq
  unfold DeclaredType.ofValue
  cases v with
  | mapping _ | knot _ _ _ _ =>
    dsimp only
    unfold DeclaredType.ofMapping
    rw [hnone]
  | _ => cases hentries

theorem property_eq (key : Value) :
    Property.ofValue key v = .ok { name := key, type := .embedded v .null [] } := by
  have hmapping : v.isMapping = true := by
    unfold Value.isMapping
    rw [h.entries_eq]
    rfl
  unfold Property.ofValue
  rw [h.member_eq_none (.inl rfl)]
  dsimp only
  rw [if_pos hmapping]

/-- A description that has the mapping as its `type` and nothing else reads as the same property. -/
theorem described_eq {raw : Value} (key : Value) (hraw : raw.entries? = some [(.text "type", v)]) :
    Property.ofValue key raw = .ok { name := key, type := .embedded v .null [] } := by
  have hmember : ∀ word, raw.member? word = if word = "type" then some v else none := by
    intro word
    unfold Value.member?
    rw [hraw]
    by_cases hw : word = "type"
    · rw [if_pos hw, hw]
      rfl
    · have hkey : (Value.text "type" == .text word) = false := by
        rw [Value.text_beq_text]
        exact beq_eq_false_iff_ne.mpr (Ne.symm hw)
      rw [if_neg hw]
      dsimp only [Table.find?]
      rw [hkey]
      rfl
  unfold Property.ofValue
  rw [hmember]
  rw [if_pos rfl]
  dsimp only
  unfold Property.ofDescription
  simp only [Value.read, Value.firstMember?, hmember, String.reduceEq, if_true, if_false,
    Option.or_none, Option.getD_some, Option.getD_none, h.ofValue_eq]
  rfl

theorem wrap_eq (form : KnotForm) (key : Value) :
    Property.ofValue key (form.wrap v) = .ok { name := key, type := .embedded v .null [] } := by
  cases form with
  | direct => exact h.property_eq key
  | wrapped | wrapper => exact h.described_eq key rfl

theorem ofMapping_eq : Property.ofMapping v = Property.ofEntries entries := by
  unfold Property.ofMapping
  rw [Value.items_of_entries h.entries_eq]
  rfl

end Value.DeclaresAll

theorem Property.ofEntries_append (hbefore : ofEntries before = .ok front)
    (hafter : ofEntries after = .ok back) : ofEntries (before ++ after) = .ok (front ++ back) := by
  induction before generalizing front with
  | nil =>
    cases hbefore
    exact hafter
  | cons entry before ih =>
    obtain ⟨key, raw⟩ := entry
    obtain ⟨p, others, hp, hothers, rfl⟩ := ofEntries_cons_ok hbefore
    rw [List.cons_append, ofEntries, hp, ih hothers]
    rfl

theorem Property.ofEntries_level (hbefore : ofEntries before = .ok front)
    (hafter : ofEntries after = .ok back) (hkey : ofValue key v = .ok q) :
    ofEntries (before ++ (key, v) :: after) = .ok (front ++ (key, q) :: back) := by
  apply ofEntries_append hbefore
  rw [ofEntries, hkey, hafter]
  rfl

/-- A property opens a structure with properties, and the one under the key among these opens the
same again, `n` times over; the innermost structure may have any properties. -/
inductive Property.Recurs (front back : List (Value × Property)) (key : Value) :
    Nat → Property → Prop
  | once {p : Property} {raw : Value} {rows : List (Value × Property)} : p.Opens raw .null [] →
    ofMapping raw = .ok rows → rows ≠ [] → Recurs front back key 0 p
  | again {p q : Property} {raw : Value} {n : Nat} : p.Opens raw .null [] →
    ofMapping raw = .ok (front ++ (key, q) :: back) → q.name = key → Recurs front back key n q →
      Recurs front back key (n + 1) p

/-- The owner of the properties on a level below a property that recurs under a key. -/
def Owner.below (o : Owner) (field key : Value) : Nat → Owner
  | 0 => o
  | n + 1 => (o.inside field []).below key key n

/-- The name of the property that opens the next level. -/
def openedField (field key : Value) : Nat → Value
  | 0 => field
  | _ + 1 => key

theorem depth_below (o : Owner) (field key : Value) (n : Nat) :
    (o.below field key n).depth = o.depth + n := by
  induction n generalizing o field with
  | zero => exact (Int.add_zero o.depth).symm
  | succ n ih =>
    have hinside : (o.inside field []).depth = o.depth + 1 := rfl
    unfold Owner.below
    rw [ih, hinside]
    omega

theorem compileAll_stops {compile : Property → Traced Compiled} {props rest : List Property}
    (hok : ∀ p ∈ props, ∃ c, (compile p).outcome = .ok c) (he : (compile q).outcome = .error e) :
    (compileAll compile (props ++ q :: rest)).outcome = .error e := by
  induction props with
  | nil =>
    rw [List.nil_append, compileAll]
    exact Traced.bind_eq_error.mpr (.inl he)
  | cons p props ih =>
    obtain ⟨c, hc⟩ := hok p List.mem_cons_self
    have hrest := ih fun p hp => hok p (List.mem_cons_of_mem _ hp)
    rw [List.cons_append, compileAll]
    apply Traced.bind_eq_error.mpr
    right
    exact ⟨c, hc, Traced.bind_eq_error.mpr (.inl hrest)⟩

theorem outcome_of_error_inside {raw : Value} (ho : p.Opens raw .null [])
    (hr : Property.ofMapping raw = .ok (front ++ (key, q) :: back))
    (hok : ∀ row ∈ front,
      ∃ c, (compileWithin s levels (o.inside p.name []) row.2).outcome = .ok c)
    (he : (compileWithin s levels (o.inside p.name []) q).outcome = .error e) :
    (compileWithin s (levels + 1) o p).outcome = .error e := by
  have hprops : ∀ r ∈ front.map (·.2),
      ∃ c, (compileWithin s levels (o.inside p.name []) r).outcome = .ok c := by
    intro r hmem
    obtain ⟨row, hrow, rfl⟩ := List.mem_map.mp hmem
    exact hok row hrow
  rw [outcome_with_levels ho hr (by simp), List.map_append, List.map_cons,
    compileAll_stops hprops he]
  rfl

/-- A property that recurs more often than levels may open fails where the first of them may not, if
what stands in front of it compiles on each level above. -/
theorem Property.Recurs.outcome (h : p.Recurs front back key n) (hle : levels ≤ n)
    (hfront : ∀ i < levels, ∀ row ∈ front,
      ∃ c,
        (compileWithin s (levels - (i + 1)) (o.below p.name key (i + 1)) row.2).outcome = .ok c) :
    ∃ q, q.name = openedField p.name key levels ∧
      (compileWithin s levels o p).outcome = .error (tooDeep s (o.below p.name key levels) q) := by
  induction h generalizing o levels with
  | @once p raw rows ho hr hne =>
    obtain rfl : levels = 0 := by omega
    exact ⟨p, rfl, outcome_without_levels ho hr hne⟩
  | @again p q raw n ho hr hname _ ih =>
    cases levels with
    | zero => exact ⟨p, rfl, outcome_without_levels ho hr (by simp)⟩
    | succ levels =>
      -- the levels below the first are those of the property under the key
      have hbelow : ∀ i, o.below p.name key (i + 1) = (o.inside p.name []).below q.name key i := by
        intro i
        rw [hname]
        rfl
      have hinner : ∀ i < levels, ∀ row ∈ front, ∃ c, (compileWithin s (levels - (i + 1))
          ((o.inside p.name []).below q.name key (i + 1)) row.2).outcome = .ok c := by
        intro i hi row hrow
        rw [← hbelow]
        have hlevels : levels - (i + 1) = levels + 1 - (i + 1 + 1) := by omega
        rw [hlevels]
        exact hfront (i + 1) (by omega) row hrow
      obtain ⟨deep, hdeep, herror⟩ := ih (by omega) hinner
      refine ⟨deep, ?_, ?_⟩
      · rw [hdeep, hname]
        cases levels <;> rfl
      · rw [hbelow]
        apply outcome_of_error_inside ho hr _ herror
        intro row hrow
        exact hfront 0 (by omega) row hrow

section Levels

variable (hnames : ∀ entry ∈ before ++ after, entry.1.NamesProperty) (hkey : key.NamesProperty)
include hnames hkey

theorem declaresAll_level {inner : Value}
    (h : v.entries? = some (before ++ (key, inner) :: after)) :
    v.DeclaresAll (before ++ (key, inner) :: after) := by
  refine ⟨h, fun entry hentry => ?_⟩
  rcases List.mem_append.mp hentry with hb | ha
  · exact hnames entry (List.mem_append_left _ hb)
  · rcases List.mem_cons.mp ha with rfl | ha
    · exact hkey
    · exact hnames entry (List.mem_append_right _ ha)

theorem unfolded_declaresAll (form : KnotForm) (hv : v.DeclaresAll entries) (n : Nat) :
    ∃ entries, (Value.unfolded before key after form v n).DeclaresAll entries := by
  cases n with
  | zero => exact ⟨entries, hv⟩
  | succ n => exact ⟨_, declaresAll_level hnames hkey rfl⟩

variable (hbefore : Property.ofEntries before = .ok front)
  (hafter : Property.ofEntries after = .ok back)
include hbefore hafter

theorem ofMapping_level {inner : Value} (h : v.entries? = some (before ++ (key, inner) :: after))
    (hinner : Property.ofValue key inner = .ok q) :
    Property.ofMapping v = .ok (front ++ (key, q) :: back) := by
  have hall := declaresAll_level hnames hkey h
  rw [hall.ofMapping_eq]
  exact Property.ofEntries_level hbefore hafter hinner

theorem knot_recurs (hform : form ≠ .wrapper) (n : Nat) :
    ({ name, type := .embedded (.knot before key after form) .null [] } : Property).Recurs
      front back key n := by
  have hinner : ∃ inner, (Value.knot before key after form).entries? =
      some (before ++ (key, inner) :: after) ∧
        Property.ofValue key inner =
          .ok { name := key, type := .embedded (.knot before key after form) .null [] } := by
    cases form with
    | direct =>
      have hall := declaresAll_level hnames hkey (v := .knot before key after .direct) rfl
      exact ⟨_, rfl, hall.property_eq key⟩
    | wrapped =>
      have hall := declaresAll_level hnames hkey (v := .knot before key after .wrapped) rfl
      exact ⟨_, rfl, hall.described_eq key rfl⟩
    | wrapper => exact absurd rfl hform
  obtain ⟨inner, hentries, hproperty⟩ := hinner
  have hr := ofMapping_level hnames hkey hbefore hafter hentries hproperty
  induction n generalizing name with
  | zero => exact .once ⟨rfl, rfl, rfl⟩ hr (by simp)
  | succ n ih => exact .again ⟨rfl, rfl, rfl⟩ hr rfl ih

/-- The first levels of a knot around an innermost structure recur as often as there are levels. -/
theorem unfolded_recurs (hv : v.DeclaresAll entries)
    (hentries : Property.ofEntries entries = .ok rows) (hne : rows ≠ []) (n : Nat) :
    ({ name, type := .embedded (.unfolded before key after form v n) .null [] } : Property).Recurs
      front back key n := by
  induction n generalizing name with
  | zero =>
    have hread : Property.ofMapping v = .ok rows := hv.ofMapping_eq.trans hentries
    exact .once ⟨rfl, rfl, rfl⟩ hread hne
  | succ n ih =>
    obtain ⟨inner, hinner⟩ := unfolded_declaresAll hnames hkey form hv n
    have hr := ofMapping_level hnames hkey hbefore hafter
      (v := .unfolded before key after form v (n + 1)) rfl (hinner.wrap_eq form key)
    exact .again ⟨rfl, rfl, rfl⟩ hr rfl ih

end Levels

/-- Reads a raw declaration and compiles the property. -/
def compileDeclaration (s : Surroundings) (o : Owner) (name raw : Value) :
    Except Failure Compiled :=
  (Property.ofValue name raw).bind fun p => (compileProperty s o p).outcome

/-- The failure of a property that recurs under a key beyond the limit: it tells of the first level
that may not open. -/
def recursTooDeep (o : Owner) (name key : Value) (limit : Int) : Failure :=
  let levels := (limit - o.depth).toNat
  let deepest := o.below name key levels
  let field := openedField name key levels
  .embeddedTooDeep (derivedName deepest.name field) deepest.rootName field (limit + 1) (.int limit)

section Limited

variable (hdepth : o.depth ≤ limit)
  (hfront : ∀ i : Nat, 1 ≤ i → o.depth + i ≤ limit → ∀ row ∈ front,
    ∃ c, (compileProperty (s.limited limit) (o.below name key i) row.2).outcome = .ok c)
include hdepth hfront

theorem compileDeclaration_recurs (hv : v.DeclaresAll entries)
    (h : ({ name, type := .embedded v .null [] } : Property).Recurs front back key n)
    (hn : limit < o.depth + (n + 1)) :
    compileDeclaration (s.limited limit) o name (.mapping [(.text "type", v)]) =
      .error (recursTooDeep o name key limit) := by
  have hlevels : ∀ i < (limit - o.depth).toNat, ∀ row ∈ front,
      ∃ c, (compileWithin (s.limited limit) ((limit - o.depth).toNat - (i + 1))
        (o.below name key (i + 1)) row.2).outcome = .ok c := by
    intro i hi row hrow
    have hleft : (limit - (o.below name key (i + 1)).depth).toNat =
        (limit - o.depth).toNat - (i + 1) := by
      rw [depth_below]
      omega
    rw [← hleft]
    exact hfront (i + 1) (by omega) (by omega) row hrow
  obtain ⟨deep, hname, hfail⟩ := h.outcome (by omega) hlevels
  have hreached : (o.below name key (limit - o.depth).toNat).depth = limit := by
    rw [depth_below]
    omega
  unfold compileDeclaration
  rw [hv.described_eq name rfl]
  change (compileProperty (s.limited limit) o _).outcome = _
  rw [compileProperty_limited, hfail]
  change Except.error (Failure.embeddedTooDeep _ _ _ (_ + 1) _) = _
  rw [hname, hreached]
  rfl

/-- A mapping that contains itself, directly or as the `type` of a description, always nests too
deep: if the properties around it can be read, and those in front of it compile on each level that
may open, the declaration of it as a type fails on the first level beyond the limit. Each finite
structure that has as many of its levels as lead beyond the limit, around any innermost one that has
properties, fails alike. -/
theorem knot_nests_too_deep (form : KnotForm) (hform : form ≠ .wrapper) (hkey : key.NamesProperty)
    (hnames : ∀ entry ∈ before ++ after, entry.1.NamesProperty)
    (hbefore : Property.ofEntries before = .ok front)
    (hafter : Property.ofEntries after = .ok back) :
    let e := recursTooDeep o name key limit
    (∃ typeName modelName field,
        e = .embeddedTooDeep typeName modelName field (limit + 1) (.int limit)) ∧
      compileDeclaration (s.limited limit) o name
          (.mapping [(.text "type", .knot before key after form)]) = .error e ∧
        ∀ (n : Nat) (innermost : Value) (entries : List (Value × Value))
          (rows : List (Value × Property)), innermost.DeclaresAll entries →
          Property.ofEntries entries = .ok rows → rows ≠ [] → limit < o.depth + (n + 1) →
            compileDeclaration (s.limited limit) o name
              (.mapping [(.text "type", .unfolded before key after form innermost n)]) =
                .error e := by
  intro e
  refine ⟨⟨_, _, _, rfl⟩, ?_, ?_⟩
  · have hall : ∃ entries, (Value.knot before key after form).DeclaresAll entries := by
      cases form with
      | direct | wrapped => exact ⟨_, declaresAll_level hnames hkey rfl⟩
      | wrapper => exact absurd rfl hform
    obtain ⟨entries, hall⟩ := hall
    apply compileDeclaration_recurs hdepth hfront hall
      (knot_recurs hnames hkey hbefore hafter hform (limit - o.depth).toNat)
    omega
  · intro n innermost entries rows hv hentries hne hn
    obtain ⟨entries', hall⟩ := unfolded_declaresAll hnames hkey form hv n
    apply compileDeclaration_recurs hdepth hfront hall
      (unfolded_recurs hnames hkey hbefore hafter hv hentries hne n)
    exact hn

end Limited

/-- A category with a title and a parent that is such a category: as a mapping that holds itself or
a description of itself, and as a category in a category in a category. -/
theorem knot_nests_too_deep_category :
    let title : Value × Value := (.text "title", .type .text)
    let item : Owner := { name := "Item" }
    let compile := fun category : Value =>
      compileDeclaration (({} : Surroundings).limited 2) item (.text "category")
        (.mapping [(.text "type", category)])
    let deep : Except Failure Compiled :=
      .error (.embeddedTooDeep "Item_category_parent_parent" "Item" (.text "parent") 3 (.int 2))
    compile (.knot [title] (.text "parent") [] .direct) = deep ∧
      compile (.knot [title] (.text "parent") [] .wrapped) = deep ∧
        compile (.unfolded [title] (.text "parent") [] .wrapped (.mapping [title]) 2) = deep := by
  intro title item compile deep
  have hnames : ∀ entry ∈ [title] ++ [], entry.1.NamesProperty := by
    intro entry hentry
    rw [List.append_nil, List.mem_singleton] at hentry
    rw [hentry]
    exact ⟨by simp [title], by simp [title]⟩
  have hkey : (Value.text "parent").NamesProperty := ⟨by simp, by simp⟩
  let row : Value × Property := (.text "title", { name := .text "title", type := .scalar "string" })
  have hread : Property.ofEntries [title] = .ok [row] := rfl
  have hfront : ∀ i : Nat, 1 ≤ i → item.depth + i ≤ 2 → ∀ r ∈ [row], ∃ c,
      (compileProperty (({} : Surroundings).limited 2)
        (item.below (.text "category") (.text "parent") i) r.2).outcome = .ok c := by
    intro i _ _ r hr
    rw [List.mem_singleton.mp hr]
    have hflat : row.2.IsFlat := fun _ _ _ ho => by cases ho.item
    have hcomparable : row.2.Comparable := by
      intro q values hq henum
      cases hq with
      | self => cases henum
      | inside ho _ _ _ => cases ho.item
    cases hc : (compileProperty (({} : Surroundings).limited 2)
        (item.below (.text "category") (.text "parent") i) row.2).outcome with
    | ok c => exact ⟨c, rfl⟩
    | error e => exact absurd hcomparable (compileWithin_flat_error hflat hc).2
  have hdepth : item.depth ≤ 2 := by decide
  have hdirect := knot_nests_too_deep hdepth hfront .direct (by decide) hkey hnames hread rfl
  have hwrapped := knot_nests_too_deep hdepth hfront .wrapped (by decide) hkey hnames hread rfl
  have hinnermost : (Value.mapping [title]).DeclaresAll [title] :=
    ⟨rfl, fun entry hentry => hnames entry (List.mem_append_left _ hentry)⟩
  exact ⟨hdirect.2.1, hwrapped.2.1,
    hwrapped.2.2 2 _ _ _ hinnermost hread (List.cons_ne_nil _ _) (by decide)⟩

end ModelSchema
