import ModelSchema.Proofs.Schema.Exportable

/-!
# What fingerprints tell apart

The fingerprint of a registry is a digest of the canonical text of what it exports. Main statement:
two registries that can be exported have the same canonical text exactly if their exports are alike.
So where the exports differ in more than the order of types, fields and arguments, the fingerprints
are the same only if two different messages have the same digest.
-/

namespace ModelSchema.Registry

variable {r r' : Registry} {cs cs' : List Char}

/-- Two different messages with the same digest. -/
def Collide (message other : List UInt8) : Prop :=
  message ≠ other ∧ Digest.sha256Hex message = Digest.sha256Hex other

theorem write_of_canonicalText (hcs : r.canonicalText = .ok cs) :
    Json.write .canonical r.exported = .ok cs := by
  unfold canonicalText at hcs
  split at hcs
  · rename_i text htext
    cases hcs
    exact htext
  · cases hcs

theorem Exportable.spells (h : r.Exportable) (hcs : r.canonicalText = .ok cs) :
    ∃ v, Json.Spells cs v ∧ r.exported.Alike v :=
  h.writable.spells (write_of_canonicalText hcs)

/-- Canonical texts are ASCII, so their bytes determine them. -/
theorem Exportable.eq_of_bytes (h : r.Exportable) (h' : r'.Exportable)
    (hcs : r.canonicalText = .ok cs) (hcs' : r'.canonicalText = .ok cs')
    (hbytes : Text.asciiBytes cs = Text.asciiBytes cs') : cs = cs' := by
  obtain ⟨v, hv, -⟩ := h.spells hcs
  obtain ⟨v', hv', -⟩ := h'.spells hcs'
  have hdecode := Text.decodeUtf8_asciiBytes hv.ascii
  rw [hbytes, Text.decodeUtf8_asciiBytes hv'.ascii] at hdecode
  exact (Option.some.inj hdecode).symm

theorem computeFingerprint_of_text (hcs : r.canonicalText = .ok cs) :
    r.computeFingerprint = .ok ("sha256:" ++ Digest.sha256Hex (Text.asciiBytes cs)) := by
  rw [computeFingerprint, hcs]
  rfl

theorem text_eq_iff_alike (h : r.Exportable) (h' : r'.Exportable) (hcs : r.canonicalText = .ok cs)
    (hcs' : r'.canonicalText = .ok cs') : cs = cs' ↔ r.exported.Alike r'.exported :=
  Json.text_eq_iff_alike h.writable h'.writable (write_of_canonicalText hcs)
    (write_of_canonicalText hcs')

/-- A registry that can be exported has a canonical text, unless an integer in it is too long. Two
of these texts are the same exactly if the exports are alike. If the fingerprints are the same, then
the exports are alike, or the bytes of the texts are two different messages with the same digest. -/
theorem canonicalText_determines_export (h : r.Exportable) (h' : r'.Exportable) :
    (r.Legible → ∃ cs, r.canonicalText = .ok cs) ∧
      ∀ cs cs', r.canonicalText = .ok cs → r'.canonicalText = .ok cs' →
        (cs = cs' ↔ r.exported.Alike r'.exported) ∧
          (r.computeFingerprint = r'.computeFingerprint →
            r.exported.Alike r'.exported ∨ Collide (Text.asciiBytes cs) (Text.asciiBytes cs')) := by
  refine ⟨h.exists_canonicalText, ?_⟩
  intro cs cs' hcs hcs'
  have hiff := text_eq_iff_alike h h' hcs hcs'
  refine ⟨hiff, ?_⟩
  intro hsame
  by_cases hbytes : Text.asciiBytes cs = Text.asciiBytes cs'
  · exact .inl (hiff.mp (h.eq_of_bytes h' hcs hcs' hbytes))
  · right
    rw [computeFingerprint_of_text hcs, computeFingerprint_of_text hcs'] at hsame
    have htext := congrArg String.toList (Except.ok.inj hsame)
    refine ⟨hbytes, ?_⟩
    rw [String.toList_append, String.toList_append] at htext
    exact String.toList_inj.mp (List.append_cancel_left htext)

/-- A registry with an enumeration of one value. -/
def singleValue (v : Value) : Registry :=
  { types := [(.text "Level", { name := .text "Level", category := .enum, values := [v] })] }

theorem singleValue_exportable {v : Value} (h : Json.Writable v) : (singleValue v).Exportable := by
  constructor
  · exact .singleton "Level" _
  · intro row hrow
    rw [List.mem_singleton.mp hrow]
    exact ⟨⟨"Level", rfl⟩, .null, by simp [h], .nil, by simp⟩

theorem singleValue_legible {v : Value} (h : v.isShowable = true) : (singleValue v).Legible := by
  intro row hrow
  rw [List.mem_singleton.mp hrow]
  exact ⟨rfl, by simp [h], by simp⟩

/-- A truth value counts as a number when types are compared, but not in canonical texts. -/
theorem canonicalText_determines_export_singleValue :
    (Value.bool true == .int 1) = true ∧
      ∃ cs cs', (singleValue (.bool true)).canonicalText = .ok cs ∧
        (singleValue (.int 1)).canonicalText = .ok cs' ∧ cs ≠ cs' := by
  refine ⟨by decide +kernel, ?_⟩
  have hbool := singleValue_exportable (.bool true)
  have hint := singleValue_exportable (.int 1)
  obtain ⟨htext, hiff⟩ := canonicalText_determines_export hbool hint
  obtain ⟨cs, hcs⟩ := htext (singleValue_legible rfl)
  obtain ⟨cs', hcs'⟩ := (canonicalText_determines_export hint hbool).1 (singleValue_legible rfl)
  refine ⟨cs, cs', hcs, hcs', ?_⟩
  intro hsame
  have halike := (hiff cs cs' hcs hcs').1.mp hsame
  have htypes := halike.entry List.mem_cons_self List.mem_cons_self rfl
  have hvalues := htypes.entry (x := (.text "values", .list [.bool true]))
    (y := (.text "values", .list [.int 1])) (by simp) (by simp) rfl
  have hvalue := hvalues.item (i := 0) rfl rfl
  cases hvalue

/-- An empty object type with a description. -/
def level (description : Value) : TypeDescriptor :=
  { name := .text "Level", category := .object, description }

/-- What is exported of this type, in the order of the keys. -/
def levelRows (description : Value) : List (Value × Value) :=
  [(.text "category", .text "OBJECT"), (.text "description", description),
    (.text "fields", .mapping []), (.text "input", .bool false), (.text "name", .text "Level")]

/-- The canonical text of this type, if its description has the given one. -/
def levelText (description : List Char) : List Char :=
  '\x7b' :: Json.stringText "category" ++ ':' :: Json.stringText "OBJECT" ++ ',' ::
    Json.stringText "description" ++ ':' :: description ++ ',' ::
    Json.stringText "fields" ++ [':', '\x7b', '\x7d', ','] ++
    Json.stringText "input" ++ ':' :: "false".toList ++ ',' ::
    Json.stringText "name" ++ ':' :: Json.stringText "Level" ++ ['\x7d']

theorem levelRows_perm (description : Value) :
    ∃ rows, (level description).exported = .mapping rows ∧ (levelRows description).Perm rows := by
  refine ⟨_, rfl, ?_⟩
  change ([_, _, _, _] ++ [_]).Perm ([_] ++ _)
  exact List.perm_append_comm.trans (.cons _ (.cons _ (.cons _ (.swap _ _ _))))

theorem levelNames_sorted : ["category", "description", "fields", "input", "name"].Pairwise
    fun a b => (!(b < a : Bool)) = true := by
  decide

theorem write_level {description : Value} {cs : List Char}
    (h : Json.write .canonical description = .ok cs) :
    Json.write .canonical (level description).exported = .ok (levelText cs) := by
  obtain ⟨rows, hrows, hperm⟩ := levelRows_perm description
  have hkeyed : TextKeyed ((levelRows description).map
      fun row => (row.1, Json.entryText .canonical row)) :=
    TextKeyed.map ⟨by simp [levelRows], by simp [levelRows, Table.Distinct]⟩ _
  have hsorted : ((levelRows description).map
      fun row => (row.1, Json.entryText .canonical row)).Pairwise
        fun a b => (!(Json.keyOf b < Json.keyOf a : Bool)) = true := by
    apply List.Pairwise.of_map Json.keyOf (S := fun a b => (!(b < a : Bool)) = true)
    · exact fun _ _ h => h
    · exact levelNames_sorted
  have htext (s : String) : Json.write .canonical (.text s) = .ok (Json.stringText s) := by
    rw [Json.write]
  have hbool : Json.write .canonical (.bool false) = .ok "false".toList := rfl
  have hempty : Json.write .canonical (.mapping []) = .ok ['\x7b', '\x7d'] := rfl
  have hkey (s : String) : Json.keyText (.text s) = .ok s := rfl
  have hcomma : Json.Style.canonical.itemSeparator = [','] := rfl
  have hcolon : Json.Style.canonical.keySeparator = [':'] := rfl
  rw [hrows, Json.write_mapping, ← Json.objectText_eq_of_perm hkeyed (hperm.map _),
    Json.objectText_of_pairwise hkeyed hsorted]
  simp only [levelRows, List.map_cons, List.map_nil, List.mapM_cons, List.mapM_nil,
    Json.entryText_eq (hkey _) (htext _), Json.entryText_eq (hkey _) h,
    Json.entryText_eq (hkey _) hbool, Json.entryText_eq (hkey _) hempty, hcomma, hcolon, bind, pure,
    Except.bind, Except.pure, Except.ok.injEq]
  simp [Json.separated, levelText]

/-- A registry with one type, of the given description. -/
def described (description : Value) : Registry :=
  { types := [(.text "Level", level description)] }

/-- The canonical text of this registry, if the description has the given code points. -/
def describedText (points : List Text.CodePoint) : List Char :=
  '\x7b' :: Json.stringText "Level" ++ ':' :: levelText (Json.pointsText points) ++ ['\x7d']

theorem canonicalText_described (s : String) :
    (described (.text s)).canonicalText = .ok (describedText (Text.codePoints s)) := by
  have htext : Json.write .canonical (.text s) = .ok (Json.stringText s) := by rw [Json.write]
  have hlevel := write_level htext
  have hkey : Json.keyText (.text "Level") = .ok "Level" := rfl
  have hentry := Json.entryText_eq hkey hlevel
  have hexport : Json.write .canonical (described (.text s)).exported =
      .ok (describedText (Text.codePoints s)) := by
    rw [exported, described, List.map_singleton, Json.write_mapping, List.map_singleton, hentry,
      Json.objectText_of_pairwise (.singleton _ _) (List.pairwise_singleton _ _), List.mapM_cons,
      List.mapM_nil]
    simp only [bind, pure, Except.bind, Except.pure, Except.ok.injEq]
    rw [describedText, ← Json.stringText, show Json.Style.canonical.keySeparator = [':'] from rfl]
    simp [Json.separated]
  rw [canonicalText, Json.canonicalText, hexport]

/-- In canonical texts the two halves of a surrogate pair cannot be told from the character of the
pair. -/
theorem canonicalText_joins_halves :
    (∀ s, (described (.text s)).canonicalText = .ok (describedText (Text.codePoints s))) ∧
      describedText [0xD83D, 0xDE00] = describedText [0x1F600] ∧
      ([0xD83D, 0xDE00] : List Text.CodePoint) ≠ [0x1F600] := by
  have hsame : Json.pointsText [0xD83D, 0xDE00] = Json.pointsText [0x1F600] := by decide
  refine ⟨canonicalText_described, ?_, by simp⟩
  rw [describedText, hsame, ← describedText]

end ModelSchema.Registry
