import Mathlib.Data.List.Forall2
import ModelSchema.Proofs.Json.Atoms
import ModelSchema.Proofs.Json.Strings

/-!
# Texts that spell values

A text spells a value if it is read as this value wherever values may end behind it. Main
statements: the texts of missing values, truth values, integers and strings spell them, and arrays
and objects of texts that spell values, with blanks behind the separators or without, spell the list
and the table of these values.
-/

namespace ModelSchema.Json

variable {c : Char} {cs tail rest text more gap : List Char} {v : Value} {fuel position : Nat}
  {comma colon : List Char}

theorem skipSpace_cons (hc : isSpace c = false) (position : Nat) (tail : List Char) :
    skipSpace position (c :: tail) = (position, c :: tail) := by
  have hneg : ¬ isSpace c = true := by simp [hc]
  rw [skipSpace, List.takeWhile_cons_of_neg hneg, List.dropWhile_cons_of_neg hneg]
  rfl

theorem skipSpace_append (hgap : ∀ c ∈ gap, isSpace c = true) (hc : isSpace c = false)
    (position : Nat) (tail : List Char) :
    skipSpace position (gap ++ c :: tail) = (position + gap.length, c :: tail) := by
  have hneg : ¬ isSpace c = true := by simp [hc]
  rw [skipSpace, List.takeWhile_append_of_pos hgap, List.dropWhile_append_of_pos hgap,
    List.takeWhile_cons_of_neg hneg, List.dropWhile_cons_of_neg hneg, List.append_nil]

/-- A separator is a mark with blanks behind it. -/
def Separates (mark : Char) (separator : List Char) : Prop :=
  ∃ gap, separator = mark :: gap ∧ ∀ c ∈ gap, c = ' '

theorem separates_canonical :
    Separates ',' Style.canonical.itemSeparator ∧ Separates ':' Style.canonical.keySeparator :=
  ⟨⟨[], rfl, by simp⟩, ⟨[], rfl, by simp⟩⟩

theorem Separates.length_pos {mark : Char} {separator : List Char}
    (h : Separates mark separator) : 0 < separator.length := by
  obtain ⟨gap, rfl, -⟩ := h
  simp

theorem Separates.ascii {mark : Char} {separator : List Char} (h : Separates mark separator)
    (hm : mark.toNat < 0x80) : ∀ c ∈ separator, c.toNat < 0x80 := by
  obtain ⟨gap, rfl, hgap⟩ := h
  intro c hc
  rcases List.mem_cons.mp hc with rfl | hc
  · exact hm
  · rw [hgap c hc]
    decide

/-- The text begins with a character that is neither a blank nor a closing bracket. -/
def Begins (cs : List Char) : Prop :=
  ∃ c tail, cs = c :: tail ∧ isSpace c = false ∧ c ≠ ']' ∧ c ≠ '\x7d'

theorem Begins.append (h : Begins cs) (more : List Char) : Begins (cs ++ more) := by
  obtain ⟨c, tail, rfl, hc⟩ := h
  exact ⟨c, tail ++ more, rfl, hc⟩

theorem Begins.skipSpace (h : Begins cs) (hgap : ∀ c ∈ gap, c = ' ') (position : Nat) :
    skipSpace position (gap ++ cs) = (position + gap.length, cs) := by
  obtain ⟨c, tail, rfl, hc, -⟩ := h
  have hblank : ∀ c ∈ gap, isSpace c = true := by
    intro c hin
    rw [hgap c hin]
    decide
  exact skipSpace_append hblank hc position tail

/-- An ASCII text that is read as a value, with fuel enough for its length. -/
structure Spells (cs : List Char) (v : Value) : Prop where
  begins : Begins cs
  ascii : ∀ c ∈ cs, c.toNat < 0x80
  reads : ∀ fuel position rest, Stops rest → 2 * cs.length ≤ fuel →
    readValue fuel position (cs ++ rest) = .ok (v, position + cs.length, rest)

theorem Spells.read_eq (h : Spells cs v) : read cs = .ok v := by
  have hskip : skipSpace 0 cs = (0, cs) := by
    have hgap : ∀ c ∈ ([] : List Char), c = ' ' := by simp
    exact h.begins.skipSpace hgap 0
  have hmark : cs.head? ≠ some '\uFEFF' := by
    intro hhead
    have hascii := h.ascii _ (List.mem_of_head? hhead)
    exact absurd hascii (by decide)
  have hread := h.reads (2 * cs.length + 2) 0 [] stops_nil (by omega)
  rw [List.append_nil] at hread
  rw [read, if_neg hmark, hskip]
  simp only [Bind.bind, Except.bind, hread]
  rfl

/-- A text spells one value at most. -/
theorem Spells.unique {w : Value} (hv : Spells cs v) (hw : Spells cs w) : v = w := by
  have hread := hv.read_eq
  rw [hw.read_eq] at hread
  exact (Except.ok.inj hread).symm

theorem readValue_atom (hq : c ≠ '"') (ho : c ≠ '\x7b') (ha : c ≠ '[') :
    readValue (fuel + 1) position (c :: tail) = readAtom position (c :: tail) := by
  rw [readValue]
  · intro rest heq
    exact hq (List.cons.inj heq).1
  · intro rest heq
    exact ho (List.cons.inj heq).1
  · intro rest heq
    exact ha (List.cons.inj heq).1

theorem Spells.of_atom (hb : Begins cs) (hascii : ∀ c ∈ cs, c.toNat < 0x80)
    (hplain : ∀ c ∈ cs.head?, c ≠ '"' ∧ c ≠ '\x7b' ∧ c ≠ '[')
    (h : ∀ position rest, Stops rest →
      readAtom position (cs ++ rest) = .ok (v, position + cs.length, rest)) : Spells cs v := by
  refine ⟨hb, hascii, ?_⟩
  obtain ⟨c, tail, rfl, -⟩ := hb
  obtain ⟨hq, ho, ha⟩ := hplain c rfl
  intro fuel position rest hrest hfuel
  rw [List.length_cons] at hfuel
  obtain ⟨fuel, rfl⟩ : ∃ n, fuel = n + 1 := ⟨fuel - 1, by omega⟩
  rw [List.cons_append, readValue_atom hq ho ha, ← List.cons_append]
  exact h position rest hrest

theorem spells_null : Spells "null".toList .null := by
  apply Spells.of_atom
  · exact ⟨_, _, rfl, by decide⟩
  · simp
  · simp
  · intro position rest _
    exact readAtom_null position rest

theorem spells_bool (b : Bool) : Spells (boolText b).toList (.bool b) := by
  apply Spells.of_atom
  · cases b <;> exact ⟨_, _, rfl, by decide⟩
  · cases b <;> simp [boolText]
  · cases b <;> simp [boolText]
  · intro position rest _
    exact readAtom_bool position b rest

theorem spells_int {n : Int} (hn : Number.isShort n = true) :
    Spells (Number.integerDigits n) (.int n) := by
  obtain ⟨c, tail, heq, hrange⟩ := Number.integerDigits_cons n
  have hne : ∀ d : Char, d.toNat < 45 ∨ 57 < d.toNat → c ≠ d := by
    rintro d hd rfl
    have hc := hrange c List.mem_cons_self
    omega
  have hspace : isSpace c = false := by
    simp [isSpace, hne ' ' (by decide), hne '\t' (by decide), hne '\n' (by decide),
      hne '\r' (by decide)]
  apply Spells.of_atom
  · exact ⟨c, tail, heq, hspace, hne _ (by decide), hne _ (by decide)⟩
  · intro d hd
    rw [heq] at hd
    have hd' := hrange d hd
    omega
  · intro d hd
    rw [heq] at hd
    cases hd
    exact ⟨hne _ (by decide), hne _ (by decide), hne _ (by decide)⟩
  · intro position rest hrest
    exact readAtom_integerDigits position hn hrest

theorem spells_text (s : String) : Spells (stringText s) (.text s) := by
  refine ⟨⟨_, _, rfl, by decide⟩, fun c hc => stringText_lt hc, ?_⟩
  intro fuel position rest _ hfuel
  obtain ⟨body, hbody, hread⟩ := readString_stringText position s rest
  cases fuel with
  | zero =>
    rw [hbody] at hfuel
    simp at hfuel
  | succ fuel =>
    rw [hbody] at hread ⊢
    rw [List.cons_append, readValue, hread]
    simp [Except.map]

theorem readElements_last (h : Spells text v) (hfuel : 2 * text.length ≤ fuel) :
    readElements (fuel + 1) position (text ++ ']' :: rest) =
      .ok ([v], position + text.length + 1, rest) := by
  have hstop : Stops (']' :: rest) := stops_cons (by simp) rest
  rw [readElements, h.reads fuel position _ hstop hfuel]
  dsimp only [Except.bind]
  rw [skipSpace_cons (by decide)]
  rfl

theorem readElements_more (h : Spells text v) (hc : Separates ',' comma) (hmore : Begins more)
    (hfuel : 2 * text.length ≤ fuel) :
    readElements (fuel + 1) position (text ++ (comma ++ more)) =
      (readElements fuel (position + text.length + comma.length) more).map
        fun (items, after) => (v :: items, after) := by
  obtain ⟨gap, rfl, hgap⟩ := hc
  have hstop : Stops (',' :: gap ++ more) := stops_cons (by simp) _
  rw [readElements, h.reads fuel position _ hstop hfuel]
  dsimp only [Except.bind]
  rw [List.cons_append, skipSpace_cons (by decide)]
  have hposition : position + text.length + (gap.length + 1) =
      position + text.length + 1 + gap.length := by omega
  simp only [hmore.skipSpace hgap, List.length_cons, hposition]

theorem separated_cons (separator text next : List Char) (texts : List (List Char)) :
    separated separator (text :: next :: texts) =
      text ++ (separator ++ separated separator (next :: texts)) := rfl

theorem separated_singleton (separator text : List Char) : separated separator [text] = text := by
  simp [separated]

theorem begins_separated (h : Begins text) (texts : List (List Char)) :
    Begins (separated comma (text :: texts)) := by
  cases texts with
  | nil => rwa [separated_singleton]
  | cons next texts =>
    rw [separated_cons]
    exact h.append _

theorem ascii_separated {texts : List (List Char)} (hc : ∀ c ∈ comma, c.toNat < 0x80)
    (h : ∀ text ∈ texts, ∀ c ∈ text, c.toNat < 0x80) :
    ∀ c ∈ separated comma texts, c.toNat < 0x80 := by
  induction texts with
  | nil =>
    intro c hin
    cases hin
  | cons text texts ih =>
    rw [List.forall_mem_cons] at h
    cases texts with
    | nil =>
      rw [separated_singleton]
      exact h.1
    | cons next texts =>
      intro c hin
      rw [separated_cons] at hin
      rcases List.mem_append.mp hin with hin | hin
      · exact h.1 c hin
      · rcases List.mem_append.mp hin with hin | hin
        · exact hc c hin
        · exact ih h.2 c hin

theorem ascii_bracketed {left right : Char} (hl : left.toNat < 0x80) (hr : right.toNat < 0x80)
    (h : ∀ c ∈ cs, c.toNat < 0x80) : ∀ c ∈ left :: cs ++ [right], c.toNat < 0x80 := by
  intro c hc
  rcases List.mem_append.mp hc with hc | hc
  · rcases List.mem_cons.mp hc with rfl | hc
    · exact hl
    · exact h c hc
  · rwa [List.mem_singleton.mp hc]

theorem length_bracketed (left right : Char) (cs : List Char) :
    (left :: cs ++ [right]).length = cs.length + 2 := by
  simp

theorem append_bracketed (left right : Char) (cs rest : List Char) :
    left :: cs ++ [right] ++ rest = left :: (cs ++ right :: rest) := by
  simp

theorem exists_of_forall₂_mem {α β : Type} {R : α → β → Prop} {xs : List α} {ys : List β} {x : α}
    (h : List.Forall₂ R xs ys) (hx : x ∈ xs) : ∃ y ∈ ys, R x y := by
  induction h with
  | nil => cases hx
  | @cons a b xs ys hab _ ih =>
    rcases List.mem_cons.mp hx with rfl | hx
    · exact ⟨b, List.mem_cons_self, hab⟩
    · obtain ⟨y, hy, hR⟩ := ih hx
      exact ⟨y, List.mem_cons_of_mem _ hy, hR⟩

theorem readElements_separated {texts : List (List Char)} {items : List Value}
    (hc : Separates ',' comma) (h : List.Forall₂ Spells texts items) (hne : texts ≠ []) :
    ∀ fuel position rest, 2 * ((separated comma texts).length + 1) ≤ fuel →
      readElements fuel position (separated comma texts ++ ']' :: rest) =
        .ok (items, position + (separated comma texts).length + 1, rest) := by
  induction h with
  | nil => exact absurd rfl hne
  | @cons text v texts items ht htexts ih =>
    intro fuel position rest hfuel
    cases fuel with
    | zero => simp at hfuel
    | succ fuel =>
      cases htexts with
      | nil =>
        rw [separated_singleton] at hfuel ⊢
        exact readElements_last ht (by omega)
      | @cons next w texts items hnext htexts =>
        rw [separated_cons, List.length_append, List.length_append] at hfuel
        have hbegins : Begins (separated comma (next :: texts) ++ ']' :: rest) :=
          (begins_separated hnext.begins texts).append _
        have hlength : 0 < comma.length := hc.length_pos
        have hrest := ih (by simp) fuel (position + text.length + comma.length) rest (by omega)
        rw [separated_cons, List.append_assoc, List.append_assoc,
          readElements_more ht hc hbegins (by omega), hrest]
        simp only [Except.map, List.length_append, Except.ok.injEq, Prod.mk.injEq, true_and,
          and_true]
        omega

theorem readValue_items (h : Begins cs) :
    readValue (fuel + 1) position ('[' :: cs) =
      (readElements fuel (position + 1) cs).map fun (items, after) => (.list items, after) := by
  obtain ⟨c, tail, rfl, hspace, hclose, -⟩ := h
  rw [readValue, skipSpace_cons hspace]
  split
  · rename_i heq
    exact absurd (List.cons.inj (congrArg Prod.snd heq)).1 hclose
  · rename_i heq
    obtain ⟨rfl, rfl⟩ := Prod.mk.inj heq
    rfl

theorem spells_array {style : Style} {texts : List (List Char)} {items : List Value}
    (hc : Separates ',' style.itemSeparator) (h : List.Forall₂ Spells texts items) :
    Spells (arrayText style texts) (.list items) := by
  have hascii : ∀ c ∈ separated style.itemSeparator texts, c.toNat < 0x80 := by
    apply ascii_separated (hc.ascii (by decide))
    intro text htext
    obtain ⟨v, -, hv⟩ := exists_of_forall₂_mem h htext
    exact hv.ascii
  refine ⟨⟨_, _, rfl, by decide⟩, ascii_bracketed (by decide) (by decide) hascii, ?_⟩
  intro fuel position rest _ hfuel
  rw [arrayText, length_bracketed] at hfuel
  obtain ⟨fuel, rfl⟩ : ∃ n, fuel = n + 1 := ⟨fuel - 1, by omega⟩
  cases h with
  | nil => rfl
  | @cons text v texts items ht htexts =>
    have hall : List.Forall₂ Spells (text :: texts) (v :: items) := .cons ht htexts
    have hbegins : Begins (separated style.itemSeparator (text :: texts) ++ ']' :: rest) :=
      (begins_separated ht.begins texts).append _
    rw [arrayText, append_bracketed, readValue_items hbegins,
      readElements_separated hc hall (by simp) fuel (position + 1) rest (by omega),
      length_bracketed]
    simp only [Except.map, Except.ok.injEq, Prod.mk.injEq, true_and, and_true]
    omega

/-- A text spells a property if it is the text of the key with the text of a value behind it. -/
def SpellsProperty (colon text : List Char) (row : String × Value) : Prop :=
  ∃ value, text = stringText row.1 ++ (colon ++ value) ∧ Spells value row.2

theorem SpellsProperty.begins {row : String × Value} (h : SpellsProperty colon text row) :
    Begins text := by
  obtain ⟨value, rfl, -⟩ := h
  exact (spells_text row.1).begins.append _

theorem SpellsProperty.ascii {row : String × Value} (h : SpellsProperty colon text row)
    (hc : ∀ c ∈ colon, c.toNat < 0x80) : ∀ c ∈ text, c.toNat < 0x80 := by
  obtain ⟨value, rfl, hvalue⟩ := h
  intro c hin
  rcases List.mem_append.mp hin with hin | hin
  · exact stringText_lt hin
  · rcases List.mem_append.mp hin with hin | hin
    · exact hc c hin
    · exact hvalue.ascii c hin

/-- The row of a property in a table. -/
def propertyRow (row : String × Value) : Value × Value := (.text row.1, row.2)

theorem readMembers_property {row : String × Value} {entries : List (Value × Value)}
    (h : SpellsProperty colon text row) (hc : Separates ':' colon) (hstop : Stops rest)
    (hfuel : 2 * text.length ≤ fuel) :
    readMembers (fuel + 1) entries position (text ++ rest) =
      match skipSpace (position + text.length) rest with
      | (position, '\x7d' :: rest) =>
        .ok (Table.put (.text row.1) row.2 entries, position + 1, rest)
      | (position, ',' :: rest) =>
        let (position, rest) := skipSpace (position + 1) rest
        readMembers fuel (Table.put (.text row.1) row.2 entries) position rest
      | (position, _) => .error ⟨.expectedComma, position⟩ := by
  obtain ⟨value, rfl, hvalue⟩ := h
  obtain ⟨gap, rfl, hgap⟩ := hc
  obtain ⟨body, hbody, hread⟩ :=
    readString_stringText position row.1 (':' :: gap ++ (value ++ rest))
  have hlength : (stringText row.1 ++ (':' :: gap ++ value)).length =
      (stringText row.1).length + 1 + gap.length + value.length := by
    simp only [List.length_append, List.length_cons]
    omega
  rw [hlength] at hfuel
  have hbegins : Begins (value ++ rest) := hvalue.begins.append rest
  rw [hlength, List.append_assoc, List.append_assoc, hbody, List.cons_append, readMembers, hread]
  dsimp only [Except.bind]
  rw [List.cons_append, skipSpace_cons (by decide)]
  simp only [hbegins.skipSpace hgap]
  have hposition : position + ((stringText row.1).length + 1 + gap.length + value.length) =
      position + (stringText row.1).length + 1 + gap.length + value.length := by omega
  have hreads := hvalue.reads fuel (position + (stringText row.1).length + 1 + gap.length) rest
    hstop (by omega)
  simp only [← hbody, hposition, String.ofList_toList]
  exact hreads ▸ rfl

theorem readMembers_last {row : String × Value} {entries : List (Value × Value)}
    (h : SpellsProperty colon text row) (hc : Separates ':' colon)
    (hfuel : 2 * text.length ≤ fuel) :
    readMembers (fuel + 1) entries position (text ++ '\x7d' :: rest) =
      .ok (Table.put (.text row.1) row.2 entries, position + text.length + 1, rest) := by
  have hstop : Stops ('\x7d' :: rest) := stops_cons (by simp) rest
  rw [readMembers_property h hc hstop hfuel, skipSpace_cons (by decide)]
  rfl

theorem readMembers_more {row : String × Value} {entries : List (Value × Value)}
    (h : SpellsProperty colon text row) (hcolon : Separates ':' colon)
    (hcomma : Separates ',' comma) (hmore : Begins more) (hfuel : 2 * text.length ≤ fuel) :
    readMembers (fuel + 1) entries position (text ++ (comma ++ more)) =
      readMembers fuel (Table.put (.text row.1) row.2 entries)
        (position + text.length + comma.length) more := by
  obtain ⟨gap, rfl, hgap⟩ := hcomma
  have hstop : Stops (',' :: gap ++ more) := stops_cons (by simp) _
  have hposition : position + text.length + (gap.length + 1) =
      position + text.length + 1 + gap.length := by omega
  rw [readMembers_property h hcolon hstop hfuel, List.cons_append, skipSpace_cons (by decide)]
  simp only [hmore.skipSpace hgap, List.length_cons, hposition]

theorem readMembers_separated {texts : List (List Char)} {rows : List (String × Value)}
    (hcomma : Separates ',' comma) (hcolon : Separates ':' colon)
    (h : List.Forall₂ (SpellsProperty colon) texts rows) (hne : texts ≠ []) :
    ∀ fuel entries position rest, 2 * ((separated comma texts).length + 1) ≤ fuel →
      readMembers fuel entries position (separated comma texts ++ '\x7d' :: rest) =
        .ok (Table.merge entries (rows.map propertyRow),
          position + (separated comma texts).length + 1, rest) := by
  induction h with
  | nil => exact absurd rfl hne
  | @cons text row texts rows ht htexts ih =>
    intro fuel entries position rest hfuel
    cases fuel with
    | zero => simp at hfuel
    | succ fuel =>
      cases htexts with
      | nil =>
        rw [separated_singleton] at hfuel ⊢
        exact readMembers_last ht hcolon (by omega)
      | @cons next other texts rows hnext htexts =>
        rw [separated_cons, List.length_append, List.length_append] at hfuel
        have hbegins : Begins (separated comma (next :: texts) ++ '\x7d' :: rest) :=
          (begins_separated hnext.begins texts).append _
        have hlength : 0 < comma.length := hcomma.length_pos
        have hrest := ih (by simp) fuel (Table.put (.text row.1) row.2 entries)
          (position + text.length + comma.length) rest (by omega)
        rw [separated_cons, List.append_assoc, List.append_assoc,
          readMembers_more ht hcolon hcomma hbegins (by omega), hrest]
        simp only [List.length_append, Except.ok.injEq, Prod.mk.injEq, and_true]
        refine ⟨rfl, ?_⟩
        omega

theorem readValue_properties (h : Begins cs) :
    readValue (fuel + 1) position ('\x7b' :: cs) =
      (readMembers fuel [] (position + 1) cs).map
        fun (entries, after) => (.mapping entries, after) := by
  obtain ⟨c, tail, rfl, hspace, -, hclose⟩ := h
  rw [readValue, skipSpace_cons hspace]
  split
  · rename_i heq
    exact absurd (List.cons.inj (congrArg Prod.snd heq)).1 hclose
  · rename_i heq
    obtain ⟨rfl, rfl⟩ := Prod.mk.inj heq
    rfl

theorem spells_object {style : Style} {texts : List (List Char)} {rows : List (String × Value)}
    (hcomma : Separates ',' style.itemSeparator) (hcolon : Separates ':' style.keySeparator)
    (h : List.Forall₂ (SpellsProperty style.keySeparator) texts rows) :
    Spells ('\x7b' :: separated style.itemSeparator texts ++ ['\x7d'])
      (.mapping (Table.ofRows (rows.map propertyRow))) := by
  have hascii : ∀ c ∈ separated style.itemSeparator texts, c.toNat < 0x80 := by
    apply ascii_separated (hcomma.ascii (by decide))
    intro text htext
    obtain ⟨row, -, hrow⟩ := exists_of_forall₂_mem h htext
    exact hrow.ascii (hcolon.ascii (by decide))
  refine ⟨⟨_, _, rfl, by decide⟩, ascii_bracketed (by decide) (by decide) hascii, ?_⟩
  intro fuel position rest _ hfuel
  rw [length_bracketed] at hfuel
  obtain ⟨fuel, rfl⟩ : ∃ n, fuel = n + 1 := ⟨fuel - 1, by omega⟩
  cases h with
  | nil => rfl
  | @cons text row texts rows ht htexts =>
    have hall : List.Forall₂ (SpellsProperty style.keySeparator) (text :: texts) (row :: rows) :=
      .cons ht htexts
    have hbegins : Begins (separated style.itemSeparator (text :: texts) ++ '\x7d' :: rest) :=
      (begins_separated ht.begins texts).append _
    rw [append_bracketed, readValue_properties hbegins,
      readMembers_separated hcomma hcolon hall (by simp) fuel [] (position + 1) rest (by omega),
      length_bracketed]
    simp only [Except.map, Except.ok.injEq, Prod.mk.injEq, and_true]
    refine ⟨rfl, ?_⟩
    omega

end ModelSchema.Json
