import Mathlib.Data.List.DropRight
import Mathlib.Data.List.Forall2
import ModelSchema.Proofs.Schema.PostOrder

/-!
# Unions between bars

A declared name with bars in it names several types. It is taken apart twice: where it is read, to
tell a single part from several, and where the property compiles. `nameParts` is what both come to:
the pieces between the bars, trimmed, without the empty ones. Main statement: a name of one part is
that part; a name of several parts compiles to the union of what the parts stand for, if each part
stands for something, and else to nothing. Only the parts matter, not the bars and blanks around
them.
-/

namespace ModelSchema

variable {α : Type} {s : Surroundings} {o : Owner} {p : Property} {declared part : String}
  {known : List String} {levels : Nat}

namespace Text

variable {cs piece blanks : List Char} {c : Char}

theorem trimBlanks_eq (cs : List Char) :
    trimBlanks cs = (cs.dropWhile isBlank).rdropWhile isBlank := rfl

theorem trimBlanks_cons_of_blank (h : isBlank c = true) (cs : List Char) :
    trimBlanks (c :: cs) = trimBlanks cs := by
  rw [trimBlanks_eq, List.dropWhile_cons_of_pos h, trimBlanks_eq]

theorem trimBlanks_blanks_append (cs : List Char) (h : ∀ c ∈ blanks, isBlank c = true) :
    trimBlanks (blanks ++ cs) = trimBlanks cs := by
  induction blanks with
  | nil => rfl
  | cons c blanks ih =>
    rw [List.cons_append, trimBlanks_cons_of_blank (h c List.mem_cons_self),
      ih fun d hd => h d (List.mem_cons_of_mem _ hd)]

theorem trimBlanks_append_blanks (cs : List Char) (h : ∀ c ∈ blanks, isBlank c = true) :
    trimBlanks (cs ++ blanks) = trimBlanks cs := by
  induction blanks using List.reverseRecOn with
  | nil => rw [List.append_nil]
  | append_singleton blanks c ih =>
    have hc : isBlank c = true := h c (by simp)
    have hrest := ih fun d hd => h d (List.mem_append_left _ hd)
    rw [← hrest, ← List.append_assoc, trimBlanks_eq, trimBlanks_eq, List.dropWhile_append]
    split
    · rename_i hempty
      have hnil : List.dropWhile isBlank (cs ++ blanks) = [] := by simpa using hempty
      rw [hnil, List.dropWhile_cons_of_pos hc]
      rfl
    · rw [List.rdropWhile_concat_pos _ _ _ hc]

theorem exists_blanks_around (cs : List Char) :
    ∃ front back : List Char, (∀ c ∈ front, isBlank c = true) ∧ (∀ c ∈ back, isBlank c = true) ∧
      cs = front ++ (trimBlanks cs ++ back) := by
  refine ⟨cs.takeWhile isBlank, (cs.dropWhile isBlank).rtakeWhile isBlank, ?_, ?_, ?_⟩
  · exact fun c hc => List.mem_takeWhile_imp hc
  · exact fun c hc => List.mem_rtakeWhile_imp hc
  · rw [trimBlanks_eq, List.rdropWhile_append_rtakeWhile, List.takeWhile_append_dropWhile]

theorem trimBlanks_trimBlanks (cs : List Char) : trimBlanks (trimBlanks cs) = trimBlanks cs := by
  obtain ⟨front, back, hfront, hback, hcs⟩ := exists_blanks_around cs
  conv_rhs =>
    rw [hcs, trimBlanks_blanks_append _ hfront, trimBlanks_append_blanks _ hback]

theorem mem_of_mem_trimBlanks (h : c ∈ trimBlanks cs) : c ∈ cs :=
  (List.dropWhile_sublist _).subset ((List.rdropWhile_prefix _ _).subset h)

theorem mem_trimBlanks (hc : isBlank c = false) (h : c ∈ cs) : c ∈ trimBlanks cs := by
  obtain ⟨front, back, hfront, hback, hcs⟩ := exists_blanks_around cs
  rw [hcs, List.mem_append, List.mem_append] at h
  rcases h with h | h | h
  · rw [hfront c h] at hc
    cases hc
  · exact h
  · rw [hback c h] at hc
    cases hc

variable {separator : Char}

theorem splitOn_cons (c : Char) (cs : List Char) :
    (c :: cs).splitOn separator =
      if c = separator then [] :: cs.splitOn separator
      else (cs.splitOn separator).modifyHead (List.cons c) := by
  simp only [List.splitOn_cons_eq_if_modifyHead, beq_iff_eq]

theorem pieces_eq_splitOn (separator : Char) (cs : List Char) :
    pieces separator cs = cs.splitOn separator := by
  induction cs with
  | nil => exact (List.splitOn_nil separator).symm
  | cons c rest ih =>
    rw [pieces, splitOn_cons, ih]
    split
    · rfl
    · cases h : rest.splitOn separator with
      | nil => exact absurd h (List.splitOn_ne_nil _ _)
      | cons piece more => rfl

theorem notMem_of_mem_splitOn (h : piece ∈ cs.splitOn separator) : separator ∉ piece := by
  induction cs generalizing piece with
  | nil =>
    rw [List.splitOn_nil, List.mem_singleton] at h
    rw [h]
    exact List.not_mem_nil
  | cons c cs ih =>
    rw [splitOn_cons] at h
    by_cases hc : c = separator
    · rw [if_pos hc, List.mem_cons] at h
      rcases h with rfl | h
      · exact List.not_mem_nil
      · exact ih h
    · rw [if_neg hc] at h
      cases hsplit : cs.splitOn separator with
      | nil =>
        rw [hsplit] at h
        cases h
      | cons first more =>
        rw [hsplit] at h ih
        rcases List.mem_cons.mp h with rfl | h
        · intro hmem
          rcases List.mem_cons.mp hmem with hsame | hmem
          · exact hc hsame.symm
          · exact ih List.mem_cons_self hmem
        · exact ih (List.mem_cons_of_mem _ h)

section Padding

variable (hseparator : isBlank separator = false)
include hseparator

theorem trimmed_pieces_of_blanks_append (cs : List Char) (h : ∀ c ∈ blanks, isBlank c = true) :
    ((blanks ++ cs).splitOn separator).map trimBlanks =
      (cs.splitOn separator).map trimBlanks := by
  induction blanks with
  | nil => rfl
  | cons c blanks ih =>
    have hblank : isBlank c = true := h c List.mem_cons_self
    have hc : c ≠ separator := by
      rintro rfl
      rw [hblank] at hseparator
      cases hseparator
    rw [← ih fun d hd => h d (List.mem_cons_of_mem _ hd), List.cons_append, splitOn_cons, if_neg hc]
    cases (blanks ++ cs).splitOn separator with
    | nil => rfl
    | cons first more =>
      rw [List.modifyHead_cons, List.map_cons, List.map_cons, trimBlanks_cons_of_blank hblank]

theorem splitOn_append_blanks (cs : List Char) (h : ∀ c ∈ blanks, isBlank c = true) :
    List.Forall₂ (fun piece padded => ∃ more, (∀ c ∈ more, isBlank c = true) ∧
      padded = piece ++ more) (cs.splitOn separator) ((cs ++ blanks).splitOn separator) := by
  induction cs with
  | nil =>
    have hnone : separator ∉ blanks := by
      intro hmem
      rw [h separator hmem] at hseparator
      cases hseparator
    rw [List.nil_append, List.splitOn_nil, List.splitOn_eq_singleton hnone]
    exact .cons ⟨blanks, h, rfl⟩ .nil
  | cons c cs ih =>
    rw [List.cons_append, splitOn_cons, splitOn_cons]
    split
    · exact .cons ⟨[], fun d hd => absurd hd List.not_mem_nil, rfl⟩ ih
    · generalize cs.splitOn separator = pieces at ih ⊢
      generalize (cs ++ blanks).splitOn separator = paddedPieces at ih ⊢
      cases ih with
      | nil => exact .nil
      | cons hfirst hmore =>
        obtain ⟨more, hmore', rfl⟩ := hfirst
        exact .cons ⟨more, hmore', rfl⟩ hmore

theorem trimmed_pieces_of_append_blanks (cs : List Char) (h : ∀ c ∈ blanks, isBlank c = true) :
    ((cs ++ blanks).splitOn separator).map trimBlanks =
      (cs.splitOn separator).map trimBlanks := by
  have hpieces := splitOn_append_blanks hseparator cs h
  symm
  rw [← List.forall₂_eq_eq_eq, List.forall₂_map_left_iff, List.forall₂_map_right_iff]
  refine hpieces.imp ?_
  rintro piece _ ⟨more, hmore, rfl⟩
  exact (trimBlanks_append_blanks piece hmore).symm

/-- Blanks around a text do not show in its trimmed pieces. -/
theorem trimmed_pieces_of_trim (cs : List Char) :
    ((trimBlanks cs).splitOn separator).map trimBlanks =
      (cs.splitOn separator).map trimBlanks := by
  obtain ⟨front, back, hfront, hback, hcs⟩ := exists_blanks_around cs
  conv_rhs => rw [hcs, trimmed_pieces_of_blanks_append hseparator _ hfront,
    trimmed_pieces_of_append_blanks hseparator _ hback]

end Padding

end Text

/-- The parts of a declared name between bars: trimmed, without the empty ones. -/
def nameParts (declared : String) : List String :=
  ((declared.toList.splitOn '|').map fun piece => Text.trim (String.ofList piece)).filter (· != "")

theorem unionParts_eq (declared : String) :
    DeclaredType.unionParts declared = nameParts declared := by
  unfold DeclaredType.unionParts nameParts
  rw [Text.pieces_eq_splitOn]
  simp [Text.trim]

theorem isBlank_bar : Text.isBlank '|' = false := by decide

theorem nameParts_trim (declared : String) :
    nameParts (Text.trim declared) = nameParts declared := by
  have hpieces := Text.trimmed_pieces_of_trim isBlank_bar declared.toList
  have hparts : ∀ cs : List Char,
      ((cs.splitOn '|').map fun piece => Text.trim (String.ofList piece)) =
        ((cs.splitOn '|').map Text.trimBlanks).map String.ofList := by
    intro cs
    rw [List.map_map]
    exact List.map_congr_left fun piece _ => by simp [Text.trim]
  unfold nameParts
  rw [hparts, hparts, Text.trim, String.toList_ofList, hpieces]

theorem of_mem_nameParts (h : part ∈ nameParts declared) :
    Text.trim part = part ∧ '|' ∉ part.toList ∧ part ≠ "" := by
  obtain ⟨hpiece, hne⟩ := List.mem_filter.mp h
  obtain ⟨piece, hmem, rfl⟩ := List.mem_map.mp hpiece
  refine ⟨?_, ?_, by simpa using hne⟩
  · simp only [Text.trim, String.toList_ofList, Text.trimBlanks_trimBlanks]
  · intro hbar
    simp only [Text.trim, String.toList_ofList] at hbar
    exact Text.notMem_of_mem_splitOn hmem (Text.mem_of_mem_trimBlanks hbar)

theorem nameParts_of_mem (h : part ∈ nameParts declared) : nameParts part = [part] := by
  obtain ⟨htrim, hbar, hne⟩ := of_mem_nameParts h
  unfold nameParts
  rw [List.splitOn_eq_singleton hbar]
  simp [htrim, hne]

theorem bar_mem_of_two_le (h : 2 ≤ (nameParts declared).length) : '|' ∈ declared.toList := by
  by_contra hbar
  have hle : (nameParts declared).length ≤ 1 := by
    unfold nameParts
    rw [List.splitOn_eq_singleton hbar]
    exact List.length_filter_le ..
  omega

theorem bar_mem_foldAsciiCase (h : '|' ∈ declared.toList) :
    '|' ∈ (Text.foldAsciiCase declared).toList := by
  rw [Text.foldAsciiCase, String.toList_map]
  exact List.mem_map.mpr ⟨'|', h, by decide⟩

/-- No scalar kind is declared by a name with a bar in it. -/
theorem ofDeclared?_of_bar_mem (h : '|' ∈ declared.toList) :
    ScalarKind.ofDeclared? declared = none := by
  have htrim : '|' ∈ (Text.trim declared).toList := by
    rw [Text.trim, String.toList_ofList]
    exact Text.mem_trimBlanks isBlank_bar h
  have hplain : ∀ row ∈ ScalarKind.declaredNames, '|' ∉ row.1.toList := by decide
  rw [ScalarKind.ofDeclared?, List.lookup_eq_none_iff]
  intro row hrow
  have hne : Text.foldAsciiCase (Text.trim declared) ≠ row.1 := fun heq =>
    hplain row hrow (heq ▸ bar_mem_foldAsciiCase htrim)
  simpa using hne

theorem ofName_of_part (h : nameParts declared = [part]) :
    DeclaredType.ofName declared = DeclaredType.ofName part := by
  have hmem : part ∈ nameParts declared := by
    rw [h]
    exact List.mem_singleton_self part
  have hpart := nameParts_of_mem hmem
  unfold DeclaredType.ofName
  dsimp only
  rw [unionParts_eq, unionParts_eq, nameParts_trim, nameParts_trim, h, hpart]

theorem ofName_of_parts (h : 2 ≤ (nameParts declared).length) :
    DeclaredType.ofName declared = .reference (Text.trim declared) := by
  have hbar : '|' ∈ (Text.trim declared).toList := by
    rw [Text.trim, String.toList_ofList]
    exact Text.mem_trimBlanks isBlank_bar (bar_mem_of_two_le h)
  have harray : Text.foldAsciiCase (Text.trim declared) ≠ DeclaredType.arrayName := by
    intro heq
    have hplain : '|' ∉ DeclaredType.arrayName.toList := by decide
    exact hplain (heq ▸ bar_mem_foldAsciiCase hbar)
  unfold DeclaredType.ofName
  dsimp only
  rw [unionParts_eq, nameParts_trim]
  split
  · rename_i part hpart
    rw [hpart, List.length_singleton] at h
    exact absurd h (by decide)
  · rw [if_neg harray, ofDeclared?_of_bar_mem hbar]
    rfl

theorem referenceNames_trim (declared : String) :
    (DeclaredType.reference (Text.trim declared)).referenceNames = nameParts declared := by
  rw [DeclaredType.referenceNames, unionParts_eq, nameParts_trim]

theorem isUnion_of_parts {t : DeclaredType} (h : 2 ≤ t.referenceNames.length) :
    t.isUnion = true :=
  decide_eq_true h

/-- What a part is called among the members of a union: by the scalar kind that it declares, in any
case, or else by itself. -/
def canonicalName (part : String) : String :=
  ((ScalarKind.ofDeclared? part).map ScalarKind.name).getD part

/-- A part declares a scalar kind or names a known model. -/
def PartKnown (known : List String) (part : String) : Prop :=
  (ScalarKind.ofDeclared? part).isSome ∨ part ∈ known

instance (known : List String) (part : String) : Decidable (PartKnown known part) :=
  inferInstanceAs (Decidable (_ ∨ _))

theorem unionMember?_of_known (h : PartKnown known part) :
    unionMember? known part = some (canonicalName part) := by
  unfold unionMember? canonicalName
  cases hkind : ScalarKind.ofDeclared? part with
  | some kind => rfl
  | none =>
    rcases h with hscalar | hmodel
    · rw [hkind] at hscalar
      cases hscalar
    · exact if_pos (List.contains_iff_mem.mpr hmodel)

theorem unionMember?_of_unknown (h : ¬ PartKnown known part) : unionMember? known part = none := by
  unfold unionMember?
  cases hkind : ScalarKind.ofDeclared? part with
  | some kind => exact absurd (.inl (by rw [hkind]; rfl)) h
  | none => exact if_neg fun hmodel => h (.inr (List.contains_iff_mem.mp hmodel))

theorem unionMembers_of_known {parts : List String} (h : ∀ part ∈ parts, PartKnown known part) :
    unionMembers known parts = .ok (parts.map canonicalName) := by
  rw [unionMembers_ok_iff, List.forall₂_map_right_iff, List.forall₂_same]
  exact fun part hpart => unionMember?_of_known (h part hpart)

/-- One part that stands for nothing is enough for the whole union to have no members. -/
theorem exists_unionMembers_error {parts : List String} (h : part ∈ parts)
    (hpart : ¬ PartKnown known part) : ∃ first, unionMembers known parts = .error first := by
  cases hmembers : unionMembers known parts with
  | error first => exact ⟨first, rfl⟩
  | ok members =>
    exfalso
    have hall := unionMembers_ok_iff.mp hmembers
    clear hmembers
    induction hall with
    | nil => cases h
    | cons hfirst _ ih =>
      rcases List.mem_cons.mp h with rfl | h
      · rw [unionMember?_of_unknown hpart] at hfirst
        cases hfirst
      · exact ih h

theorem compileScalar_outcome_of_timestamp {f : Field} (type type' type'' : DeclaredType)
    (h : p.isTimestamp = true) :
    (compileScalar s o { p with type := type } f type').outcome =
      (compileScalar s o p f type'').outcome := by
  have hgenerator : p.defaultGenerator = some timestampGenerator := by
    simpa [Property.isTimestamp] using h
  have hdate : ScalarKind.ofDeclared? timestampGenerator = some .date := by decide +kernel
  have hkind : ∀ declared, p.standingKind? declared = some .date := by
    intro declared
    unfold Property.standingKind?
    rw [hgenerator, Option.bind_some, hdate, Option.some_or]
  have hkind' : ({ p with type := type } : Property).standingKind? type' = some .date := hkind type'
  rw [compileScalar, compileScalar, Traced.outcome_bind, Traced.outcome_bind, scalarKind?_outcome,
    scalarKind?_outcome, hkind, hkind']
  rfl

theorem compileWithin_outcome_of_parts {label label' : String}
    (hunion : (DeclaredType.reference label).isUnion = true)
    (hparts : (DeclaredType.reference label').referenceNames =
      (DeclaredType.reference label).referenceNames) :
    (compileWithin s levels o { p with type := .reference label' }).outcome =
      (compileWithin s levels o { p with type := .reference label }).outcome := by
  have hunion' : (DeclaredType.reference label').isUnion = true := by
    rw [DeclaredType.isUnion, hparts]
    exact hunion
  by_cases hdeprecated : p.deprecated = true
  · rw [compileWithin_of_deprecated (p := { p with type := .reference label' }) hdeprecated,
      compileWithin_of_deprecated (p := { p with type := .reference label }) hdeprecated]
  · have hd : p.deprecated = false := by simpa using hdeprecated
    by_cases htimed : p.isTimestamp = true
    · rw [compileWithin_of_timestamp (p := { p with type := .reference label' }) hd nofun htimed,
        compileWithin_of_timestamp (p := { p with type := .reference label }) hd nofun htimed]
      exact (compileScalar_outcome_of_timestamp _ _ .untypedArray htimed).trans
        (compileScalar_outcome_of_timestamp _ _ .untypedArray htimed).symm
    · have ht : p.isTimestamp = false := by simpa using htimed
      rw [compileWithin_of_reference (p := { p with type := .reference label' }) hd ht rfl,
        compileWithin_of_reference (p := { p with type := .reference label }) hd ht rfl]
      unfold compileReference
      rw [if_pos hunion, if_pos hunion', hparts]
      cases unionMembers s.knownModels (DeclaredType.reference label).referenceNames with
      | error part =>
        dsimp only
        rw [outcome_leaveOut, outcome_leaveOut]
      | ok members => rfl

section Union

variable {label : String} (hunion : (DeclaredType.reference label).isUnion = true)
  (hitem : p.type.itemType = .reference label) (hd : p.deprecated = false)
  (ht : p.isTimestamp = false)
include hunion hitem hd ht

/-- A union of known parts has the distinct names of what the parts stand for as its members. -/
theorem compileProperty_of_known
    (hknown : ∀ part ∈ (DeclaredType.reference label).referenceNames,
      PartKnown s.knownModels part) :
    (compileProperty s o p).outcome =
      .ok
        { field := some ((p.bareField o).withDerived (derivedName o.name p.name))
          types :=
            [.unionOf o.name p.name
              (((DeclaredType.reference label).referenceNames.map canonicalName).eraseDups)] } := by
  rw [compileProperty, compileWithin_of_reference hd ht hitem, compileReference, if_pos hunion,
    unionMembers_of_known hknown]
  rfl

theorem compileProperty_of_unknown
    (hunknown : ∃ part ∈ (DeclaredType.reference label).referenceNames,
      ¬ PartKnown s.knownModels part) :
    (compileProperty s o p).outcome = .ok {} := by
  obtain ⟨part, hmem, hpart⟩ := hunknown
  obtain ⟨first, hfirst⟩ := exists_unionMembers_error hmem hpart
  rw [compileProperty, compileWithin_of_reference hd ht hitem, compileReference, if_pos hunion,
    hfirst]
  exact outcome_leaveOut s o p first

end Union

/-- Only the parts of a declared name show in what a property of that type compiles to. -/
theorem compileProperty_outcome_of_parts {declared' : String}
    (hsame : nameParts declared' = nameParts declared) (hne : nameParts declared ≠ []) :
    (compileProperty s o { p with type := DeclaredType.ofName declared' }).outcome =
      (compileProperty s o { p with type := DeclaredType.ofName declared }).outcome := by
  rcases Nat.lt_or_ge (nameParts declared).length 2 with hfew | hseveral
  · obtain ⟨part, hpart⟩ : ∃ part, nameParts declared = [part] := by
      apply List.length_eq_one_iff.mp
      have hpos := List.length_pos_iff.mpr hne
      omega
    rw [ofName_of_part hpart, ofName_of_part (hsame.trans hpart)]
  · have hseveral' : 2 ≤ (nameParts declared').length := by
      rw [hsame]
      exact hseveral
    have hnames := referenceNames_trim declared
    rw [ofName_of_parts hseveral, ofName_of_parts hseveral']
    apply compileWithin_outcome_of_parts (isUnion_of_parts (hnames.symm ▸ hseveral))
    rw [hnames, referenceNames_trim, hsame]

/-- A declared name is read by its parts. A single part is read as it would be alone. Several parts
are a reference to all of them in order; in a property that is neither deprecated nor a timestamp
they compile to one union, named by the owner and the field, of the distinct names of what the parts
stand for in the order of first occurrence, if every part declares a scalar kind or names a known
model, and otherwise to nothing. Names with the same parts, at least one, compile to the same. -/
theorem ofName_parts (declared : String) :
    let parts := nameParts declared
    let t := DeclaredType.ofName declared
    DeclaredType.ofValue (.text declared) = .ok t ∧
      (∀ part, parts = [part] → DeclaredType.ofValue (.text part) = .ok t) ∧
      (2 ≤ parts.length →
        (∃ label, t = .reference label) ∧ t.referenceNames = parts ∧
          ∀ (s : Surroundings) (o : Owner) (p : Property), p.type.itemType = t →
            p.deprecated = false → p.isTimestamp = false →
              ((∀ part ∈ parts, PartKnown s.knownModels part) →
                (compileProperty s o p).outcome =
                  .ok
                    { field := some ((p.bareField o).withDerived (o.name ++ "_" ++ p.name.plain))
                      types :=
                        [{ name := .text (o.name ++ "_" ++ p.name.plain)
                           category := .union
                           members := (parts.map canonicalName).eraseDups }] }) ∧
                ((∃ part ∈ parts, ¬ PartKnown s.knownModels part) →
                  (compileProperty s o p).outcome = .ok {})) ∧
      ∀ declared', nameParts declared' = parts → parts ≠ [] →
        ∀ (s : Surroundings) (o : Owner) (p : Property),
          (compileProperty s o { p with type := DeclaredType.ofName declared' }).outcome =
            (compileProperty s o { p with type := t }).outcome := by
  intro parts t
  refine ⟨rfl, ?_, ?_, ?_⟩
  · intro part hpart
    rw [DeclaredType.ofValue, ← ofName_of_part hpart]
  · intro hseveral
    have ht : t = .reference (Text.trim declared) := ofName_of_parts hseveral
    have hnames : t.referenceNames = parts := by rw [ht, referenceNames_trim]
    have hunion : t.isUnion = true := isUnion_of_parts (hnames.symm ▸ hseveral)
    refine ⟨⟨_, ht⟩, hnames, fun s o p hitem hd htimed => ?_⟩
    rw [ht] at hitem hunion hnames
    rw [← hnames]
    exact ⟨compileProperty_of_known hunion hitem hd htimed,
      compileProperty_of_unknown hunion hitem hd htimed⟩
  · exact fun declared' hsame hne s o p => compileProperty_outcome_of_parts hsame hne

/-- A name with needless bars and blanks in it. -/
def payerName : String := " |Order | | String||uuid|Order|GUID "

def payerProperty : Property := { name := .text "payer", type := DeclaredType.ofName payerName }

/-- Padding, empty parts and other names of a scalar kind do not show in a union. -/
theorem ofName_parts_payer :
    let s : Surroundings := { knownModels := ["Order"] }
    let bill : Owner := { name := "Bill" }
    nameParts payerName = ["Order", "String", "uuid", "Order", "GUID"] ∧
      payerProperty.deprecated = false ∧
      payerProperty.isTimestamp = false ∧
      (compileProperty s bill payerProperty).outcome =
        .ok
          { field := some ((payerProperty.bareField bill).withDerived "Bill_payer")
            types :=
              [{ name := .text "Bill_payer"
                 category := .union
                 members := ["Order", "String", "ID"] }] } ∧
      (compileProperty {} bill payerProperty).outcome = .ok {} ∧
      DeclaredType.ofValue (.text "| Order |") = DeclaredType.ofValue (.text "Order") ∧
      (compileProperty s bill
        { payerProperty with type := DeclaredType.ofName "Order|String|uuid|Order|GUID" }).outcome =
        (compileProperty s bill payerProperty).outcome := by
  intro s bill
  have hparts : nameParts payerName = ["Order", "String", "uuid", "Order", "GUID"] := by
    decide +kernel
  have hlength : 2 ≤ (nameParts payerName).length := by
    rw [hparts]
    decide
  have hmembers : ((nameParts payerName).map canonicalName).eraseDups =
      ["Order", "String", "ID"] := by
    rw [hparts]
    decide +kernel
  have htype : payerProperty.type = DeclaredType.ofName payerName := rfl
  obtain ⟨-, -, hseveral, hsame⟩ := ofName_parts payerName
  obtain ⟨⟨label, hlabel⟩, -, hcompile⟩ := hseveral hlength
  have hitem : payerProperty.type.itemType = DeclaredType.ofName payerName := by
    rw [htype, hlabel]
    rfl
  obtain ⟨hknown, -⟩ := hcompile s bill payerProperty hitem rfl rfl
  obtain ⟨-, hunknown⟩ := hcompile {} bill payerProperty hitem rfl rfl
  obtain ⟨-, hsingle, -⟩ := ofName_parts "| Order |"
  have hunion := hknown (by decide +kernel)
  rw [hmembers] at hunion
  refine ⟨hparts, rfl, rfl, hunion, hunknown (by decide +kernel), ?_, ?_⟩
  · exact (hsingle "Order" (by decide +kernel)).symm
  · exact hsame "Order|String|uuid|Order|GUID" (by decide +kernel)
      (List.ne_nil_of_length_pos (Nat.lt_of_lt_of_le Nat.zero_lt_two hlength)) s bill payerProperty

end ModelSchema
