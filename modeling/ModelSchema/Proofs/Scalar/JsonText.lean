import ModelSchema.Proofs.Json.Normal
import ModelSchema.Proofs.Number.Literals
import ModelSchema.Scalar.Json

/-!
# Values that go out and come in again

The opaque scalar writes a value as its readable JSON text and reads such a text when it comes in.
Main statement: a value without floating-point numbers is refused exactly if an integer inside is
too long, or a mapping that is reached from it has a key that names no property, or holds itself.
Every other one comes in again in its normal form, and values that are put together from plain ones
come in as they are.
-/

namespace ModelSchema.JsonScalar

variable {v : Value} {cs : List Char}

theorem serialize_of_write (h : Json.write .readable v = .ok cs) :
    serialize v = .ok (String.ofList cs) := by
  rw [serialize, Json.readableText, h]
  rfl

theorem serialize_cases (v : Value) :
    (∃ cs, Json.write .readable v = .ok cs ∧ serialize v = .ok (String.ofList cs)) ∨
      ∃ e, Json.write .readable v = .error e ∧ serialize v = .error (.jsonUnwritable e) := by
  cases h : Json.write .readable v with
  | ok cs => exact .inl ⟨cs, rfl, serialize_of_write h⟩
  | error e =>
    refine .inr ⟨e, rfl, ?_⟩
    rw [serialize, Json.readableText, h]
    rfl

theorem readText_of_spells (h : Json.Spells cs v) : readText (String.ofList cs) = .ok v := by
  rw [readText, String.toList_ofList, h.read_eq]

theorem exists_serialize (hf : v.FloatFree) (hs : v.isShowable = true) (h : Json.Plain v) :
    ∃ text, serialize v = .ok text ∧ readText text = .ok (Json.normal v) := by
  obtain ⟨cs, hwrite, hspells⟩ := h.speltNormal hf hs
  exact ⟨String.ofList cs, serialize_of_write hwrite, readText_of_spells hspells⟩

theorem refused_iff (hf : v.FloatFree) :
    (∃ e, serialize v = .error (.jsonUnwritable e)) ↔ ¬ (v.isShowable = true ∧ Json.Plain v) := by
  rw [← Json.exists_write_iff hf]
  rcases serialize_cases v with ⟨cs, hwrite, htext⟩ | ⟨e, hwrite, hfailure⟩
  · simp [hwrite, htext]
  · simp [hwrite, hfailure]

theorem not_plain_iff : ¬ Json.Plain v ↔
    ∃ w, v.Reaches w ∧ ((∃ key ∈ w.keys, ¬ Json.NamesProperty key) ∨ w.HoldsItself) := by
  simp only [Json.Plain, Value.Throughout, not_forall, exists_prop,
    Classical.not_and_iff_not_or_not, Classical.not_not]

theorem exists_serialize_of_writable (h : Json.Writable v) (hs : v.isShowable = true) :
    ∃ text, serialize v = .ok text ∧ readText text = .ok v := by
  obtain ⟨text, htext, hread⟩ := exists_serialize h.floatFree hs h.plain
  rw [h.normal_eq] at hread
  exact ⟨text, htext, hread⟩

/-- A value is refused exactly if an integer inside is too long, or a mapping that is reached from
it has a key that names no property or holds itself. Otherwise it comes in again in its normal form,
which is the value itself if it is put together from plain ones. -/
theorem parseValue_serialize (hf : v.FloatFree) :
    ((∃ e, serialize v = .error (.jsonUnwritable e)) ↔
      v.isShowable = false ∨
        ∃ w, v.Reaches w ∧ ((∃ key ∈ w.keys, ¬ Json.NamesProperty key) ∨ w.HoldsItself)) ∧
    ((∃ e, serialize v = .error (.jsonUnwritable e)) ∨
      ∃ text, serialize v = .ok text ∧ parseValue (.text text) = .ok (Json.normal v)) ∧
    (Json.Writable v → v.isShowable = true →
      ∃ text, serialize v = .ok text ∧ parseValue (.text text) = .ok v) := by
  refine ⟨?_, ?_, exists_serialize_of_writable⟩
  · rw [refused_iff hf, Classical.not_and_iff_not_or_not, Bool.not_eq_true, not_plain_iff]
  · by_cases h : v.isShowable = true ∧ Json.Plain v
    · exact .inr (exists_serialize hf h.1 h.2)
    · exact .inl ((refused_iff hf).mpr h)

/-- A parcel with keys and values of many kinds; two of its keys name the same property. -/
def parcel : Value :=
  .mapping
    [(.int 1, .tuple [.int (-20), .text "caf\u00e9 \"\n"]),
     (.null, .object [("city", .text "Bern")]),
     (.bool true, .list [.type .integer, .bytes [0x61]]),
     (.text "1", .date Calendar.Date.earliest)]

theorem floatFree_of_no_contents (hv : ¬ v.IsFloat) (hkeys : v.keys = []) (h : v.contents = []) :
    v.FloatFree := by
  refine Value.throughout_of_no_contents ⟨hv, ?_⟩ h
  simp [hkeys]

theorem floatFree_list {items : List Value} (h : ∀ w ∈ items, w.FloatFree) :
    (Value.list items).FloatFree ∧ (Value.tuple items).FloatFree := by
  constructor
  all_goals
    apply Value.throughout_of_contents
    · simp [Value.IsFloat, Value.keys, Value.entries?]
    · exact h

theorem parcel_floatFree : parcel.FloatFree := by
  have hleaf : ∀ w ∈ [Value.int (-20), .text "caf\u00e9 \"\n", .object [("city", .text "Bern")],
      .type .integer, .bytes [0x61], .date Calendar.Date.earliest], w.FloatFree := by
    intro w hw
    simp only [List.mem_cons, List.not_mem_nil, or_false] at hw
    rcases hw with rfl | rfl | rfl | rfl | rfl | rfl
    all_goals exact floatFree_of_no_contents (by simp [Value.IsFloat]) rfl rfl
  simp only [List.forall_mem_cons] at hleaf
  obtain ⟨hint, htext, hobject, htype, hbytes, hdate, -⟩ := hleaf
  apply Value.throughout_of_contents
  · simp [parcel, Value.IsFloat, Value.keys, Value.entries?]
  · simp only [parcel, Value.contents, Value.entries?, Option.getD_some, List.map_cons,
      List.map_nil, List.forall_mem_cons]
    refine ⟨(floatFree_list ?_).2, hobject, (floatFree_list ?_).1, hdate, by simp⟩
    · simp [hint, htext]
    · simp [htype, hbytes]

/-- The date comes in as a text, under the first key that names its property. -/
theorem parseValue_serialize_parcel : parcel.FloatFree ∧
    ∃ text, serialize parcel = .ok text ∧ parseValue (.text text) = .ok (.mapping
      [(.text "1", .text "0001-01-01"), (.text "null", .text "namespace(city='Bern')"),
       (.text "true", .list [.text "<class 'int'>", .text "b'a'"])]) := by
  refine ⟨parcel_floatFree, ?_⟩
  obtain ⟨-, ⟨e, hrefused⟩ | ⟨text, htext, hread⟩, -⟩ := parseValue_serialize parcel_floatFree
  · have hwritten : ∃ text, serialize parcel = .ok text := ⟨_, rfl⟩
    obtain ⟨text, htext⟩ := hwritten
    rw [htext] at hrefused
    cases hrefused
  · exact ⟨text, htext, hread⟩

/-- A mapping that holds itself. -/
def mirror : Value := .knot [] (.text "self") [] .direct

theorem mirror_reaches {w : Value} (hw : mirror.Reaches w) : w = mirror := by
  induction hw with
  | refl => rfl
  | tail _ hlast ih =>
    rw [ih] at hlast
    exact List.mem_singleton.mp hlast

theorem mirror_floatFree : mirror.FloatFree := by
  intro w hw
  rw [mirror_reaches hw]
  simp [mirror, Value.IsFloat, Value.keys, Value.entries?]

/-- An integer with more digits than are read: a one and as many zeros as there may be digits. -/
def longInteger : Int := (10 ^ Number.digitLimit : Nat)

theorem longInteger_not_short : Number.isShort longInteger = false :=
  Number.isShort_eq_false (Nat.le_of_eq (Int.natAbs_natCast _).symm)

theorem serialize_longInteger :
    serialize (.int longInteger) = .error (.jsonUnwritable .longInteger) := by
  rw [serialize, Json.readableText, Json.write, Json.writeInteger,
    if_neg (by simp [longInteger_not_short])]
  rfl

/-- A mapping that holds itself and a long integer are refused, although every key that is reached
names a property, and a string of the two halves of a surrogate pair is read as one character. -/
theorem serialize_exceptions :
    (mirror.FloatFree ∧ serialize mirror = .error (.jsonUnwritable .circular) ∧
      ∀ w, mirror.Reaches w → ∀ key ∈ w.keys, Json.NamesProperty key) ∧
    ((Value.int longInteger).FloatFree ∧
      serialize (.int longInteger) = .error (.jsonUnwritable .longInteger) ∧
      ∀ w, (Value.int longInteger).Reaches w → ∀ key ∈ w.keys, Json.NamesProperty key) ∧
    parseValue (.text (String.ofList (Json.pointsText [0xD83D, 0xDE00]))) =
      .ok (.text (String.singleton (Char.ofNat 0x1F600))) := by
  refine ⟨⟨mirror_floatFree, rfl, ?_⟩, ⟨?_, serialize_longInteger, ?_⟩, rfl⟩
  · intro w hw
    rw [mirror_reaches hw]
    simp [mirror, Value.keys, Value.entries?, Json.NamesProperty]
  · exact floatFree_of_no_contents (by simp [Value.IsFloat]) rfl rfl
  · apply Value.throughout_of_no_contents
    · simp [Value.keys, Value.entries?]
    · rfl

end ModelSchema.JsonScalar
