import Mathlib.Data.List.Forall2
import ModelSchema.Declaration.Model
import ModelSchema.Proofs.Execution
import ModelSchema.Proofs.Value.Keys

/-!
# The same model in other words

What a model says can be written in many ways: as mappings or as attribute objects, and under one
alias of a name or another. A description is reworded by changing the shape of it, or of the parts
of it that are read by name, and by putting another alias in place of the only one of a slot. Main
statement: the reworded description of a model reads as the same model with the same events, or both
lack a name.
-/

namespace ModelSchema

variable {v w : Value} {name : String} {names : List String} {slots : List (List String)}
  {rename : String → String} {alike : String → Value → Value → Prop}
  {rows rows' : List (Value × Value)} {α β : Type}

/-- What a description says: the entries of a mapping, or the attributes of an object by name. -/
inductive Value.Says : Value → List (Value × Value) → Prop
  | mapping {v : Value} {rows : List (Value × Value)} : v.entries? = some rows → Says v rows
  | object (attributes : List (String × Value)) :
    Says (.object attributes) (attributes.map fun row => (.text row.1, row.2))

/-- A name that a value has only if it was given to it. -/
def IsPlainName (name : String) : Prop := name ≠ "__class__" ∧ name ≠ "__dict__"

instance : DecidablePred IsPlainName := fun _ => inferInstanceAs (Decidable (_ ∧ _))

theorem Value.Says.member?_eq (h : v.Says rows) (hname : IsPlainName name) :
    v.member? name = Table.find? (.text name) rows := by
  cases h with
  | mapping hrows =>
    unfold Value.member?
    rw [hrows]
  | object attributes =>
    change Value.attribute? (.object attributes) name = _
    unfold Value.attribute? Value.ownAttribute?
    rw [if_neg hname.1]
    dsimp only
    rw [if_neg hname.2]
    induction attributes with
    | nil => rfl
    | cons row rest ih =>
      obtain ⟨k, a⟩ := row
      rw [List.map_cons, Table.find?, Table.find?, Value.text_beq_text, ih]

/-- The first value that rows have under one of the names. -/
def firstFound (names : List String) (rows : List (Value × Value)) : Option Value :=
  names.findSome? fun name => Table.find? (.text name) rows

theorem Value.Says.firstMember?_eq (h : v.Says rows) (hnames : ∀ name ∈ names, IsPlainName name) :
    v.firstMember? names = firstFound names rows := by
  unfold firstFound
  induction names with
  | nil => rfl
  | cons name rest ih =>
    have hrest := ih fun name hn => hnames name (List.mem_cons_of_mem _ hn)
    rw [Value.firstMember?, h.member?_eq (hnames name List.mem_cons_self), hrest,
      List.findSome?_cons]
    cases Table.find? (.text name) rows <;> rfl

/-- A description that says nothing counts as false only as a mapping, and nothing is read of it
either way. -/
theorem Value.Says.read_of_isTrue (h : v.Says rows) (hnames : ∀ name ∈ names, IsPlainName name) :
    (if v.isTrue then v.read names else .null) = v.read names := by
  by_cases htrue : v.isTrue = true
  · rw [if_pos htrue]
  · have hempty : rows = [] := by
      cases h with
      | mapping hrows =>
        rw [Value.isTrue_of_entries hrows] at htrue
        simpa using htrue
      | object attributes => exact absurd rfl htrue
    have hnone : firstFound names [] = none := by
      unfold firstFound
      rw [List.findSome?_eq_none_iff]
      intro name _
      rfl
    rw [if_neg htrue, Value.read, h.firstMember?_eq hnames, hempty, hnone]
    rfl

/-- A renaming keeps the names of a description, but may put one alias of a slot in place of another
that is the only one there. -/
def Renames (slots : List (List String)) (rows : List (Value × Value)) (rename : String → String) :
    Prop :=
  ∀ name v, (.text name, v) ∈ rows → rename name = name ∨
    ∃ slot ∈ slots, name ∈ slot ∧ rename name ∈ slot ∧
      ∀ other u, (.text other, u) ∈ rows → other ∈ slot → other = name

/-- A row under another name, with a value that is alike; a key that is no text stays. -/
inductive RowReworded (rename : String → String) (alike : String → Value → Value → Prop) :
    Value × Value → Value × Value → Prop
  | named {name : String} {v w : Value} : alike name v w →
    RowReworded rename alike (.text name, v) (.text (rename name), w)
  | other {key v : Value} : (∀ name, key ≠ .text name) →
    RowReworded rename alike (key, v) (key, v)

/-- Two descriptions say the same row by row, each a mapping or an attribute object. -/
def Reworded (slots : List (List String)) (alike : String → Value → Value → Prop) (v w : Value) :
    Prop :=
  ∃ rows rows' rename, v.Says rows ∧ w.Says rows' ∧ Renames slots rows rename ∧
    List.Forall₂ (RowReworded rename alike) rows rows'

/-- A description that keeps its names is in other words once it changes its shape. -/
theorem Reworded.ofAttributes (attributes : List (String × Value))
    (halike : ∀ name v, alike name v v) :
    Reworded slots alike (.mapping (attributes.map fun row => (.text row.1, row.2)))
      (.object attributes) := by
  refine ⟨_, _, id, .mapping rfl, .object attributes, fun _ _ _ => .inl rfl, ?_⟩
  apply List.forall₂_same.mpr
  intro row hrow
  obtain ⟨pair, -, rfl⟩ := List.mem_map.mp hrow
  exact .named (halike _ _)

/-- A name, with `b` for `a`. -/
def respelled (a b name : String) : String := if name = a then b else name

theorem renames_respelled {a b : String} {slot : List String}
    (hslot : slot ∈ slots) (ha : a ∈ slot) (hb : b ∈ slot)
    (honly : ∀ row ∈ rows, ∀ other ∈ slot, row.1 = .text other → other = a) :
    Renames slots rows (respelled a b) := by
  intro name v hv
  unfold respelled
  by_cases hname : name = a
  · right
    rw [if_pos hname, hname]
    refine ⟨slot, hslot, ha, hb, ?_⟩
    intro other u hu hother
    exact honly _ hu other hother rfl
  · left
    exact if_neg hname

theorem find?_reworded {a b : String} (h : List.Forall₂ (RowReworded rename alike) rows rows')
    (hkey : ∀ name v, (.text name, v) ∈ rows → (rename name = b ↔ name = a)) :
    Option.Rel (alike a) (Table.find? (.text a) rows) (Table.find? (.text b) rows') := by
  induction h with
  | nil => exact .none
  | cons hrow hrest ih =>
    have hrest := ih fun name v hv => hkey name v (List.mem_cons_of_mem _ hv)
    cases hrow with
    | @named name v w halike =>
      have hiff := hkey name v List.mem_cons_self
      rw [Table.find?, Table.find?, Value.text_beq_text, Value.text_beq_text]
      by_cases hname : name = a
      · rw [if_pos (beq_iff_eq.mpr hname), if_pos (beq_iff_eq.mpr (hiff.mpr hname))]
        rw [hname] at halike
        exact .some halike
      · have hother : rename name ≠ b := fun he => hname (hiff.mp he)
        rw [if_neg (by simpa using hname), if_neg (by simpa using hother)]
        exact hrest
    | @other key v hother =>
      have hneq : ∀ n, ¬ (key == .text n) = true := fun n he =>
        hother n (Value.eq_of_beq_text he)
      rw [Table.find?, Table.find?, if_neg (hneq a), if_neg (hneq b)]
      exact hrest

theorem mem_reworded {b : String} (h : List.Forall₂ (RowReworded rename alike) rows rows')
    (hb : (.text b, w) ∈ rows') : ∃ name v, (.text name, v) ∈ rows ∧ rename name = b := by
  induction h with
  | nil => cases hb
  | cons hrow _ ih =>
    rcases List.mem_cons.mp hb with rfl | hb
    · cases hrow with
      | named _ => exact ⟨_, _, List.mem_cons_self, rfl⟩
      | other hother => exact absurd rfl (hother b)
    · obtain ⟨name, v, hv, hname⟩ := ih hb
      exact ⟨name, v, List.mem_cons_of_mem _ hv, hname⟩

theorem firstFound_of_only {a : String} (ha : a ∈ names)
    (honly : ∀ name v, (.text name, v) ∈ rows → name ∈ names → name = a) :
    firstFound names rows = Table.find? (.text a) rows := by
  have hnone : ∀ name ∈ names, name ≠ a → Table.find? (.text name) rows = none := by
    intro name hname hne
    apply Table.find?_eq_none_iff.mpr
    intro row hrow
    apply Bool.eq_false_iff.mpr
    intro hkey
    have heq : row = (.text name, row.2) := Prod.ext (Value.eq_of_beq_text hkey) rfl
    rw [heq] at hrow
    exact hne (honly name _ hrow hname)
  unfold firstFound
  clear honly
  induction names with
  | nil => cases ha
  | cons name rest ih =>
    rw [List.findSome?_cons]
    by_cases hname : name = a
    · rw [hname]
      cases hfound : Table.find? (.text a) rows with
      | some v => rfl
      | none =>
        rw [List.findSome?_eq_none_iff]
        intro other hother
        by_cases he : other = a
        · rw [he, hfound]
        · exact hnone other (List.mem_cons_of_mem _ hother) he
    · rw [hnone name List.mem_cons_self hname]
      rcases List.mem_cons.mp ha with he | ha
      · exact absurd he.symm hname
      · exact ih ha fun other hother => hnone other (List.mem_cons_of_mem _ hother)

theorem rel_imp {r r' : α → β → Prop} {x : Option α} {y : Option β} (h : Option.Rel r x y)
    (hr : ∀ a b, r a b → r' a b) : Option.Rel r' x y := by
  cases h with
  | none => exact .none
  | some h => exact .some (hr _ _ h)

theorem rel_refl {r : α → α → Prop} (hr : ∀ a, r a a) (x : Option α) : Option.Rel r x x := by
  cases x with
  | none => exact .none
  | some a => exact .some (hr a)

theorem eq_of_rel {r : α → α → Prop} {x y : Option α} (h : Option.Rel r x y)
    (hr : ∀ a b, r a b → a = b) : x = y := by
  cases h with
  | none => rfl
  | some h => rw [hr _ _ h]

theorem getD_congr_of_rel {r : α → α → Prop} {x y : Option α} {f : α → β} (h : Option.Rel r x y)
    (hr : ∀ a b, r a b → f a = f b) (d : α) : f (x.getD d) = f (y.getD d) := by
  cases h with
  | none => rfl
  | some h => exact hr _ _ h

theorem findSome?_rel {f g : String → Option Value}
    (h : ∀ name ∈ names, Option.Rel (alike name) (f name) (g name)) :
    Option.Rel (fun v w => ∃ name ∈ names, alike name v w) (names.findSome? f)
      (names.findSome? g) := by
  induction names with
  | nil => exact .none
  | cons name rest ih =>
    have hhead := h name List.mem_cons_self
    rw [List.findSome?_cons, List.findSome?_cons]
    cases hf : f name with
    | some v =>
      rw [hf] at hhead
      cases hg : g name with
      | some w =>
        rw [hg] at hhead
        cases hhead with
        | some halike => exact .some ⟨name, List.mem_cons_self, halike⟩
      | none =>
        rw [hg] at hhead
        cases hhead
    | none =>
      rw [hf] at hhead
      cases hg : g name with
      | some w =>
        rw [hg] at hhead
        cases hhead
      | none =>
        apply rel_imp (ih fun name hn => h name (List.mem_cons_of_mem _ hn))
        rintro v w ⟨other, hother, halike⟩
        exact ⟨other, List.mem_cons_of_mem _ hother, halike⟩

section Renamed

variable (hr : Renames slots rows rename)
  (hslot : ∀ slot ∈ slots, slot = names ∨ ∀ name ∈ names, name ∉ slot)
include hr hslot

/-- A row that comes under one of the names had its own, or has the slot to itself. -/
theorem eq_or_alone_of_renamed {a : String} (ha : (.text a, v) ∈ rows) (hmem : rename a ∈ names) :
    rename a = a ∨
      a ∈ names ∧ ∀ other u, (.text other, u) ∈ rows → other ∈ names → other = a := by
  rcases hr a v ha with hsame | ⟨slot, hs, hin, hrenamed, honly⟩
  · exact .inl hsame
  · rcases hslot slot hs with rfl | hapart
    · exact .inr ⟨hin, honly⟩
    · exact absurd hrenamed (hapart _ hmem)

theorem alone_of_moved {a : String} (ha : (.text a, v) ∈ rows) (hmem : a ∈ names)
    (hmoved : rename a ≠ a) :
    rename a ∈ names ∧ ∀ other u, (.text other, u) ∈ rows → other ∈ names → other = a := by
  rcases hr a v ha with hsame | ⟨slot, hs, hin, hrenamed, honly⟩
  · exact absurd hsame hmoved
  · rcases hslot slot hs with rfl | hapart
    · exact ⟨hrenamed, honly⟩
    · exact absurd hin (hapart a hmem)

variable (h : List.Forall₂ (RowReworded rename alike) rows rows')
include h

theorem firstFound_of_kept
    (hkept : ∀ a u, (.text a, u) ∈ rows → a ∈ names → rename a = a) :
    Option.Rel (fun v w => ∃ name ∈ names, alike name v w) (firstFound names rows)
      (firstFound names rows') := by
  apply findSome?_rel
  intro a ha
  apply find?_reworded h
  intro name u hu
  constructor
  · intro hname
    have hmem : rename name ∈ names := by
      rw [hname]
      exact ha
    rcases eq_or_alone_of_renamed hr hslot hu hmem with hsame | ⟨hin, -⟩
    · exact hsame.symm.trans hname
    · exact (hkept name u hu hin).symm.trans hname
  · rintro rfl
    exact hkept name u hu ha

theorem firstFound_of_moved {a : String} (ha : (.text a, v) ∈ rows) (hmem : a ∈ names)
    (hmoved : rename a ≠ a) :
    Option.Rel (fun v w => ∃ name ∈ names, alike name v w) (firstFound names rows)
      (firstFound names rows') := by
  obtain ⟨hrenamed, honly⟩ := alone_of_moved hr hslot ha hmem hmoved
  have hsole : ∀ name u, (.text name, u) ∈ rows → rename name ∈ names → name = a := by
    intro name u hu hin
    rcases eq_or_alone_of_renamed hr hslot hu hin with hsame | ⟨hname, -⟩
    · rw [hsame] at hin
      exact honly name u hu hin
    · exact honly name u hu hname
  have honly' : ∀ b u, (.text b, u) ∈ rows' → b ∈ names → b = rename a := by
    intro b u hu hb
    obtain ⟨name, x, hx, rfl⟩ := mem_reworded h hu
    rw [hsole name x hx hb]
  have hkey : ∀ name u, (.text name, u) ∈ rows → (rename name = rename a ↔ name = a) := by
    intro name u hu
    constructor
    · intro he
      rw [← he] at hrenamed
      exact hsole name u hu hrenamed
    · rintro rfl
      rfl
  rw [firstFound_of_only hmem honly, firstFound_of_only hrenamed honly']
  exact rel_imp (find?_reworded h hkey) fun v w halike => ⟨a, hmem, halike⟩

/-- The names of a slot, or a name of no slot, find the same in other words. -/
theorem firstFound_reworded :
    Option.Rel (fun v w => ∃ name ∈ names, alike name v w) (firstFound names rows)
      (firstFound names rows') := by
  by_cases hkept : ∀ a u, (.text a, u) ∈ rows → a ∈ names → rename a = a
  · exact firstFound_of_kept hr hslot h hkept
  · push Not at hkept
    obtain ⟨a, u, hu, ha, hmoved⟩ := hkept
    exact firstFound_of_moved hr hslot h hu ha hmoved

end Renamed

namespace Reworded

variable (h : Reworded slots alike v w) (hnames : ∀ name ∈ names, IsPlainName name)
  (hslot : ∀ slot ∈ slots, slot = names ∨ ∀ name ∈ names, name ∉ slot)
include h hnames

theorem read_of_isTrue :
    (if v.isTrue then v.read names else .null) = v.read names ∧
      (if w.isTrue then w.read names else .null) = w.read names := by
  obtain ⟨rows, rows', rename, hv, hw, -, -⟩ := h
  exact ⟨hv.read_of_isTrue hnames, hw.read_of_isTrue hnames⟩

include hslot

theorem firstMember? :
    Option.Rel (fun a b => ∃ name ∈ names, alike name a b) (v.firstMember? names)
      (w.firstMember? names) := by
  obtain ⟨rows, rows', rename, hv, hw, hr, hrows⟩ := h
  rw [hv.firstMember?_eq hnames, hw.firstMember?_eq hnames]
  exact firstFound_reworded hr hslot hrows

theorem read_congr {f : Value → β} (halike : ∀ name ∈ names, ∀ a b, alike name a b → f a = f b) :
    f (v.read names) = f (w.read names) := by
  apply getD_congr_of_rel (h.firstMember? hnames hslot)
  rintro a b ⟨name, hname, hab⟩
  exact halike name hname a b hab

theorem read_eq (halike : ∀ name ∈ names, ∀ a b, alike name a b → a = b) :
    v.read names = w.read names :=
  h.read_congr (f := id) hnames hslot halike

omit hnames hslot in
/-- A part that is found under one name only, and not reworded itself, is found as it is. -/
theorem firstMember?_eq (hname : IsPlainName name) (hslot : ∀ slot ∈ slots, name ∉ slot)
    (halike : ∀ a b, alike name a b → a = b) : v.firstMember? [name] = w.firstMember? [name] := by
  have hplain : ∀ other ∈ [name], IsPlainName other := by simpa using hname
  have hapart : ∀ slot ∈ slots, slot = [name] ∨ ∀ other ∈ [name], other ∉ slot := by
    intro slot hs
    right
    simpa using hslot slot hs
  apply eq_of_rel (h.firstMember? hplain hapart)
  rintro a b ⟨other, hother, hab⟩
  rw [List.mem_singleton.mp hother] at hab
  exact halike a b hab

end Reworded

end ModelSchema
