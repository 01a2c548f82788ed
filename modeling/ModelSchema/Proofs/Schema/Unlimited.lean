import ModelSchema.Proofs.Schema.Declarations
import ModelSchema.Proofs.Schema.EmbedDepth
import ModelSchema.Proofs.Tables

/-!
# Structures without a limit

Without a limit as many levels may open as the value nests that declares the structures. A value
without knots in it has all its parts on lower levels: what it declares nests less deep than it
does itself. Main statement: so the levels never run out, and more of them change nothing.
-/

namespace ModelSchema

variable {s : Surroundings} {o : Owner} {p : Property} {v w raw : Value} {n levels levels' : Nat}
  {t : DeclaredType} {key : Value} {rows : List (Value × Property)}

namespace Value

mutual

/-- Whether a value has no knot in it. -/
def isTree (v : Value) : Bool :=
  match v with
  | .list items | .tuple items | .set items => itemsAreTrees items
  | .mapping entries => entriesAreTrees entries
  | .knot .. => false
  | .object fields | .record _ fields => fieldsAreTrees fields
  | _ => true
termination_by structural v

def itemsAreTrees (items : List Value) : Bool :=
  match items with
  | [] => true
  | v :: rest => v.isTree && itemsAreTrees rest
termination_by structural items

def entriesAreTrees (entries : List (Value × Value)) : Bool :=
  match entries with
  | [] => true
  | (_, v) :: rest => v.isTree && entriesAreTrees rest
termination_by structural entries

def fieldsAreTrees (fields : List (String × Value)) : Bool :=
  match fields with
  | [] => true
  | (_, v) :: rest => v.isTree && fieldsAreTrees rest
termination_by structural fields

end

/-- A value has no knot in it and nests no deeper than a bound. -/
structure Within (n : Nat) (v : Value) : Prop where
  tree : v.isTree = true
  bound : v.nesting ≤ n

/-- A value is within less than a bound. -/
def Beneath (n : Nat) (v : Value) : Prop := ∃ k < n, v.Within k

theorem within_of_mem_items {items : List Value} (ht : itemsAreTrees items = true)
    (hn : itemNesting items ≤ n) (hv : v ∈ items) : v.Within n := by
  induction items with
  | nil => cases hv
  | cons first rest ih =>
    rw [itemsAreTrees, Bool.and_eq_true] at ht
    rw [itemNesting] at hn
    rcases List.mem_cons.mp hv with rfl | hv
    · exact ⟨ht.1, by omega⟩
    · exact ih ht.2 (by omega) hv

theorem within_of_mem_entries {entries : List (Value × Value)}
    (ht : entriesAreTrees entries = true) (hn : entryNesting entries ≤ n) {entry : Value × Value}
    (he : entry ∈ entries) : entry.2.Within n := by
  induction entries with
  | nil => cases he
  | cons first rest ih =>
    obtain ⟨key, v⟩ := first
    rw [entriesAreTrees, Bool.and_eq_true] at ht
    rw [entryNesting] at hn
    rcases List.mem_cons.mp he with rfl | he
    · exact ⟨ht.1, by dsimp only; omega⟩
    · exact ih ht.2 (by omega) he

theorem within_of_mem_fields {fields : List (String × Value)} (ht : fieldsAreTrees fields = true)
    (hn : fieldNesting fields ≤ n) {field : String × Value} (hf : field ∈ fields) :
    field.2.Within n := by
  induction fields with
  | nil => cases hf
  | cons first rest ih =>
    obtain ⟨name, v⟩ := first
    rw [fieldsAreTrees, Bool.and_eq_true] at ht
    rw [fieldNesting] at hn
    rcases List.mem_cons.mp hf with rfl | hf
    · exact ⟨ht.1, by dsimp only; omega⟩
    · exact ih ht.2 (by omega) hf

namespace Within

variable (h : v.Within n)
include h

theorem item {items : List Value} (hv : v = .list items ∨ v = .tuple items) (hw : w ∈ items) :
    w.Beneath n := by
  obtain ⟨ht, hn⟩ := h
  rcases hv with rfl | rfl
  · rw [nesting] at hn
    exact ⟨n - 1, by omega, within_of_mem_items ht (by omega) hw⟩
  · rw [nesting] at hn
    exact ⟨n - 1, by omega, within_of_mem_items ht (by omega) hw⟩

theorem entry {entries : List (Value × Value)} (he : v.entries? = some entries)
    {entry : Value × Value} (hmem : entry ∈ entries) : entry.2.Beneath n := by
  obtain ⟨ht, hn⟩ := h
  cases v with
  | mapping entries' =>
    cases he
    rw [nesting] at hn
    exact ⟨n - 1, by omega, within_of_mem_entries ht (by omega) hmem⟩
  | knot _ _ _ _ => cases ht
  | _ => cases he

theorem field {fields : List (String × Value)}
    (hv : v = .object fields ∨ ∃ shape, v = .record shape fields) {field : String × Value}
    (hf : field ∈ fields) : field.2.Beneath n := by
  obtain ⟨ht, hn⟩ := h
  rcases hv with rfl | ⟨shape, rfl⟩
  · rw [nesting] at hn
    exact ⟨n - 1, by omega, within_of_mem_fields ht (by omega) hf⟩
  · rw [nesting] at hn
    exact ⟨n - 1, by omega, within_of_mem_fields ht (by omega) hf⟩

theorem member {word : String} (hword : word ∈ ["type", "properties", "definition"])
    (hw : v.member? word = some w) : w.Beneath n := by
  rcases member?_cases hword hw with ⟨entries, he, entry, hmem, rfl⟩ | ⟨fields, hv, field, hf, rfl⟩
  · exact h.entry he hmem
  · exact h.field hv hf

end Within

end Value

/-- The structures that a type declares have no knots in them. -/
def DeclaredType.isTree : DeclaredType → Bool
  | .listOf item => item.isTree
  | .embedded raw _ _ => raw.isTree
  | _ => true

/-- A type has no knot in it and nests no deeper than a bound. -/
structure DeclaredType.Within (n : Nat) (t : DeclaredType) : Prop where
  tree : t.isTree = true
  bound : t.nesting ≤ n

theorem DeclaredType.Within.mono {m : Nat} (h : t.Within n) (hle : n ≤ m) : t.Within m :=
  ⟨h.tree, Nat.le_trans h.bound hle⟩

theorem DeclaredType.within_of_ofMapping (h : v.Within n) (ht : ofMapping v = .ok t) :
    t.Within (n + 1) := by
  unfold ofMapping at ht
  cases hproperties : v.member? "properties" with
  | none =>
    rw [hproperties] at ht
    cases ht
    exact ⟨h.tree, Nat.succ_le_succ h.bound⟩
  | some properties =>
    rw [hproperties] at ht
    obtain ⟨k, hk, hwithin⟩ := h.member (by simp) hproperties
    obtain ⟨hidden, -, rfl⟩ := exists_of_map_ok ht
    have hbound := hwithin.bound
    refine ⟨hwithin.tree, ?_⟩
    rw [nesting]
    omega

theorem DeclaredType.within_of_ofDescription (v : Value) : (ofDescription v).Within 0 := by
  unfold ofDescription
  split
  · split <;> exact ⟨rfl, Nat.le_refl 0⟩
  · exact ⟨rfl, Nat.le_refl 0⟩

theorem DeclaredType.within_of_ofName (declared : String) : (ofName declared).Within 0 := by
  unfold ofName
  dsimp only
  repeat' split
  all_goals exact ⟨rfl, Nat.le_refl 0⟩

/-- A type nests at most one level more than the value that stands for it. -/
theorem DeclaredType.within_of_ofValue (h : v.Within n) (ht : ofValue v = .ok t) :
    t.Within (n + 1) := by
  induction n using Nat.strongRecOn generalizing v t with
  | ind n ih =>
    have hitems : ∀ items, (v = .list items ∨ v = .tuple items) → ofItems items = .ok t →
        t.Within (n + 1) := by
      intro items hv ht
      cases items with
      | nil =>
        rw [ofItems] at ht
        cases ht
        exact ⟨rfl, Nat.zero_le _⟩
      | cons first rest =>
        obtain ⟨k, hk, hfirst⟩ := h.item hv List.mem_cons_self
        rw [ofItems] at ht
        obtain ⟨item, hitem, rfl⟩ := exists_of_map_ok ht
        obtain ⟨htree, hbound⟩ := ih k hk hfirst hitem
        refine ⟨htree, ?_⟩
        rw [nesting]
        omega
    unfold ofValue at ht
    cases v with
    | type t' =>
      cases ht
      cases t' <;> exact ⟨rfl, Nat.zero_le _⟩
    | list items => exact hitems items (.inl rfl) ht
    | tuple items => exact hitems items (.inr rfl) ht
    | text declared =>
      cases ht
      exact (within_of_ofName declared).mono (Nat.zero_le _)
    | mapping entries => exact within_of_ofMapping h ht
    | knot _ _ _ _ => cases h.tree
    | _ =>
      cases ht
      exact (within_of_ofDescription _).mono (Nat.zero_le _)

theorem Property.within_of_ofValue (h : v.Within n) (hp : ofValue key v = .ok p) :
    p.type.Within (n + 1) := by
  obtain ⟨-, ⟨described, hdescribed, htype⟩ | htype | htype⟩ := ofValue_cases hp
  · obtain ⟨k, hk, hwithin⟩ := h.member (by simp) hdescribed
    exact (DeclaredType.within_of_ofValue hwithin htype).mono (by omega)
  · rw [htype]
    exact ⟨h.tree, Nat.succ_le_succ h.bound⟩
  · exact DeclaredType.within_of_ofValue h htype

theorem Property.within_of_ofMapping (h : raw.Within n) (hrows : ofMapping raw = .ok rows) :
    ∀ row ∈ rows, row.2.type.Within n := by
  intro row hrow
  obtain ⟨entries, he, entry, hentry, hp⟩ := exists_of_mem_ofMapping hrows row hrow
  obtain ⟨k, hk, hwithin⟩ := h.entry he hentry
  exact (within_of_ofValue hwithin hp).mono hk

end ModelSchema
