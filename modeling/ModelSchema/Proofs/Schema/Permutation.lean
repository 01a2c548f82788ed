import Mathlib.Data.List.Nodup
import ModelSchema.Proofs.Schema.PlainModels

/-!
# The order of models

The draft of a model depends on which models there are, not on their order: which names are known,
and which of them are shared. So two runs over the same models plan the same types, up to the order
of the listings in the root type.
-/

namespace ModelSchema

variable {s s' : Surroundings} {models models' : List Model}

/-- Two surroundings with the same settings and the same known names, in whatever order. -/
structure Surroundings.Agree (s s' : Surroundings) : Prop where
  settings : s.settings = s'.settings
  known : ∀ n, s.knownModels.contains n = s'.knownModels.contains n

theorem unionMembers_congr (h : s.Agree s') (parts : List String) :
    unionMembers s.knownModels parts = unionMembers s'.knownModels parts := by
  induction parts with
  | nil => rfl
  | cons part rest ih => rw [unionMembers, unionMembers, unionMember?, unionMember?, h.known, ih]

theorem leaveOut_congr (h : s.Agree s') (o : Owner) (p : Property) (label : String) :
    leaveOut s o p label = leaveOut s' o p label := by
  rw [leaveOut, leaveOut, h.settings]

theorem compileScalar_congr (h : s.Agree s') (o : Owner) (p : Property) (f : Field)
    (declared : DeclaredType) :
    compileScalar s o p f declared = compileScalar s' o p f declared := by
  simp only [compileScalar, leaveOut_congr h]

theorem compileReference_congr (h : s.Agree s') (o : Owner) (p : Property) (f : Field)
    (declared : DeclaredType) :
    compileReference s o p f declared = compileReference s' o p f declared := by
  simp only [compileReference, leaveOut_congr h, unionMembers_congr h, h.known]

theorem compileWithin_congr (h : s.Agree s') (levels : Nat) (o : Owner) (p : Property) :
    compileWithin s levels o p = compileWithin s' levels o p := by
  have hdeep : ∀ o p, tooDeep s o p = tooDeep s' o p :=
    fun o p => by rw [tooDeep, tooDeep, h.settings]
  induction levels generalizing o p with
  | zero =>
    rw [compileWithin.eq_def, compileWithin.eq_def s']
    simp only [compileScalar_congr h, compileReference_congr h, hdeep]
  | succ levels ih =>
    have hinner : compileWithin s levels = compileWithin s' levels :=
      funext fun o => funext fun p => ih o p
    rw [compileWithin.eq_def, compileWithin.eq_def s']
    simp only [compileScalar_congr h, compileReference_congr h, hinner]

theorem compileProperty_congr (h : s.Agree s') (o : Owner) (p : Property) :
    compileProperty s o p = compileProperty s' o p := by
  rw [compileProperty, compileProperty, h.settings, compileWithin_congr h]

/-- The same models in another order, told apart by their names and by those of their listings. -/
structure Rearranged (models models' : List Model) : Prop where
  perm : models.Perm models'
  names : (models.map Model.name).Nodup
  listings : ((models.filter Model.shared).map Model.listingName).Nodup

theorem Rearranged.symm (h : Rearranged models models') : Rearranged models' models :=
  ⟨h.perm.symm, (h.perm.map Model.name).nodup_iff.mp h.names,
    ((h.perm.filter Model.shared).map Model.listingName).nodup_iff.mp h.listings⟩

namespace Generator

variable {g : Generator} {m : Model}

theorem surroundings_agree (h : Rearranged g.models models') :
    g.surroundings.Agree { g with models := models' }.surroundings := by
  constructor
  · rfl
  · intro n
    have hmem : n ∈ g.models.map Model.name ↔ n ∈ models'.map Model.name :=
      (h.perm.map Model.name).mem_iff
    rw [Bool.eq_iff_iff, List.contains_iff_mem, List.contains_iff_mem]
    exact hmem

/-- Where names are not shared, whether the first model of a name is shared does not depend on the
order. -/
theorem model?_any_shared (hnames : (g.models.map Model.name).Nodup) (target : String) :
    (g.model? target).any Model.shared = true ↔
      ∃ m ∈ g.models, m.name = target ∧ m.shared = true := by
  rw [Option.any_eq_true]
  constructor
  · rintro ⟨m, hm, hs⟩
    refine ⟨m, List.mem_of_find?_eq_some hm, ?_, hs⟩
    simpa using List.find?_some hm
  · rintro ⟨m, hm, hname, hs⟩
    have hfound : (g.model? target).isSome = true := List.find?_isSome.mpr ⟨m, hm, by simp [hname]⟩
    obtain ⟨first, hfirst⟩ := Option.isSome_iff_exists.mp hfound
    have hin : first ∈ g.models := List.mem_of_find?_eq_some hfirst
    have hsame : first.name = m.name := by
      rw [hname]
      simpa using List.find?_some hfirst
    have heq : first = m := List.inj_on_of_nodup_map hnames hin hm hsame
    rw [heq] at hfirst
    exact ⟨m, hfirst, hs⟩

theorem exposes_congr (h : Rearranged g.models models') (relation : Relation) :
    { g with models := models' }.exposes relation = g.exposes relation := by
  unfold exposes
  cases relation.target with
  | none => rfl
  | some target =>
    have hshared : (({ g with models := models' } : Generator).model? target).any Model.shared =
        (g.model? target).any Model.shared := by
      rw [Bool.eq_iff_iff, model?_any_shared h.names, model?_any_shared h.symm.names]
      simp only [h.perm.mem_iff]
    simp only [hshared]

/-- The draft of a model does not see the order of the models. -/
theorem draft_rearranged (h : Rearranged g.models models') (m : Model) :
    { g with models := models' }.draft m = g.draft m := by
  have hcompile : compileProperty ({ g with models := models' } : Generator).surroundings m.owner =
      compileProperty g.surroundings m.owner :=
    funext fun p => (compileProperty_congr (surroundings_agree h) m.owner p).symm
  have hexposed : ({ g with models := models' } : Generator).exposedRelations m =
    g.exposedRelations m :=
    List.filter_congr fun relation _ => exposes_congr h relation
  rw [draft, draft, hcompile, hexposed]

theorem typesOf_rearranged (h : Rearranged g.models models') (m : Model) :
    { g with models := models' }.typesOf m = g.typesOf m := by
  rw [typesOf, typesOf, draft_rearranged h]

theorem newModels_of_nodup {ms : List Model} {taken : List String} (h : (ms.map Model.name).Nodup)
    (ht : ∀ m ∈ ms, m.name ∉ taken) : newModels taken ms = ms := by
  induction ms generalizing taken with
  | nil => rfl
  | cons m rest ih =>
    rw [List.map_cons, List.nodup_cons] at h
    rw [List.forall_mem_cons] at ht
    rw [newModels, if_neg ht.1, ih h.2]
    intro other ho hin
    rcases List.mem_append.mp hin with hin | hin
    · exact ht.2 other ho hin
    · rw [← List.mem_singleton.mp hin] at h
      exact h.1 (List.mem_map_of_mem ho)

theorem firstModels_eq (h : (g.models.map Model.name).Nodup) : g.firstModels = g.models :=
  newModels_of_nodup h fun _ _ => List.not_mem_nil

end Generator

theorem listings_eq (h : ((models.filter Model.shared).map Model.listingName).Nodup) :
    listings models =
      (models.filter Model.shared).map fun m => (.text m.listingName, Field.ofListing m) := by
  refine Table.ofRows_eq_self ?_
  rw [List.Nodup, List.pairwise_map] at h
  refine List.pairwise_map.mpr (h.imp fun {a b} hne => ?_)
  simpa using hne

theorem listings_perm (h : Rearranged models models') :
    (listings models).Perm (listings models') := by
  rw [listings_eq h.listings, listings_eq h.symm.listings]
  exact (h.perm.filter Model.shared).map _

theorem rootType_same (h : Rearranged models models') (settings : Settings) :
    (rootType models settings).same (rootType models' settings) = true := by
  have hfields : sameRows Field.same (listings models) (listings models') = true := by
    refine sameRows_iff.mpr ⟨fun row hr => ⟨row, (listings_perm h).mem_iff.mp hr, ?_⟩,
      fun row hr => ⟨row, (listings_perm h).mem_iff.mpr hr, ?_⟩⟩
    all_goals simp [relatedRow, Field.same_refl]
  exact TypeDescriptor.same_iff.mpr
    ⟨BEq.rfl, rfl, BEq.rfl, hfields, Value.sameItems_refl fun v _ => v.same_refl, rfl, rfl, rfl⟩

theorem write_rootType (h : Rearranged models models') (settings : Settings) :
    Json.write .canonical (rootType models settings).exported =
      Json.write .canonical (rootType models' settings).exported := by
  refine TypeDescriptor.write_exported_congr rfl rfl rfl rfl rfl rfl rfl ?_
  have hp : (exportedRows (listings models)).Perm (exportedRows (listings models')) :=
    (listings_perm h).map _
  refine Json.write_mapping_eq ((textKeyed_listings models).map fun row => row.2.exported)
    ((textKeyed_listings models').map fun row => row.2.exported) (fun row hr => ?_)
      (fun row hr => ?_)
  · exact ⟨row, hp.mem_iff.mp hr, rfl, rfl⟩
  · exact ⟨row, hp.mem_iff.mpr hr, rfl, rfl⟩

end ModelSchema
