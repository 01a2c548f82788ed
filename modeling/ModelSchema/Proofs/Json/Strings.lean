import ModelSchema.Json.Reader
import ModelSchema.Json.Writer

/-!
# Strings that are read back

Inside a string a character is written as itself, as a letter behind a backslash, or as one or two
units of sixteen bits, so that no character can be taken for another or for the closing quote. Main
statement: the text of a string is read back as the string, whatever follows.
-/

namespace ModelSchema.Json

variable {start position : Nat} {c : Char} {more : List Char}

/-- A reading of characters with one more character before them. -/
def startingWith (c : Char) (reading : Reading (List Char)) : Reading (List Char) :=
  reading.map fun (cs, after) => (c :: cs, after)

/-- Characters that belong to an escape are passed over. -/
theorem readString_skip (start position : Nat) (cs more : List Char) :
    readString start cs.length position (cs ++ more) =
      readString start 0 (position + cs.length) more := by
  induction cs generalizing position with
  | nil => rfl
  | cons c cs ih =>
    rw [List.length_cons, List.cons_append, readString, ih]
    congr 1
    omega

theorem readString_escape {cs : List Char} {n : Nat} (hn : cs.length = n)
    (h : readEscape start (position + 1) (cs ++ more) = .ok (c, n)) :
    readString start 0 position ('\\' :: cs ++ more) =
      startingWith c (readString start 0 (position + (n + 1)) more) := by
  subst hn
  rw [List.cons_append, readString, if_neg (by decide), if_pos rfl, h]
  dsimp only
  rw [readString_skip, startingWith, Nat.add_assoc, Nat.add_comm 1]

theorem readString_letter {letter : Char} (hu : letter ≠ 'u') (h : simpleEscape? letter = some c) :
    readString start 0 position (['\\', letter] ++ more) =
      startingWith c (readString start 0 (position + 2) more) := by
  have hread : readEscape start (position + 1) ([letter] ++ more) = .ok (c, 1) := by
    rw [List.singleton_append, readEscape, if_neg hu, h]
  exact readString_escape rfl hread

theorem readUnit?_hexDigits {unit : Nat} (h : unit < 0x10000) (more : List Char) :
    readUnit? (Text.hexDigits 4 unit ++ more) = some unit := by
  have htake : (Text.hexDigits 4 unit ++ more).take 4 = Text.hexDigits 4 unit :=
    List.take_left' (Text.length_hexDigits 4 unit)
  rw [readUnit?, htake, Text.readHex_hexDigits 4 unit 0 h]
  simp

theorem drop_hexDigits (unit : Nat) (more : List Char) :
    (Text.hexDigits 4 unit ++ more).drop 4 = more :=
  List.drop_left' (Text.length_hexDigits 4 unit)

/-- A unit that is not the first half of a pair. -/
theorem readUnits_single {unit : Nat} (h : unit < 0x10000) (hs : isHighSurrogate unit = false)
    (hmore : more ≠ []) :
    readUnits position (Text.hexDigits 4 unit ++ more) = .ok (unitChar unit, 5) := by
  have hnonempty : more.isEmpty = false := by simpa using hmore
  unfold readUnits
  rw [drop_hexDigits, hnonempty, readUnit?_hexDigits h]
  simp [hs]

theorem readUnits_pair {high low : Nat} (hh : isHighSurrogate high = true)
    (hl : isLowSurrogate low = true) (hmore : more ≠ []) :
    readUnits position (Text.hexDigits 4 high ++ (unitEscape low ++ more)) =
      .ok (pairChar high low, 11) := by
  simp only [isHighSurrogate, isLowSurrogate, Bool.and_eq_true, decide_eq_true_eq] at hh hl
  have hnonempty : more.isEmpty = false := by simpa using hmore
  have hdrop : ((unitEscape low ++ more).drop 6) = more := drop_hexDigits low more
  have hsecond : (unitEscape low ++ more).drop 2 = Text.hexDigits 4 low ++ more := rfl
  have hstart : (unitEscape low ++ more).take 2 = ['\\', 'u'] := rfl
  have hsome : (unitEscape low ++ more).isEmpty = false := rfl
  unfold readUnits
  rw [drop_hexDigits, hsome, readUnit?_hexDigits (by omega)]
  dsimp only
  rw [hdrop, hnonempty, hstart, hsecond, readUnit?_hexDigits (by omega)]
  simp [isHighSurrogate, isLowSurrogate, hh, hl]

theorem toNat_cases (c : Char) : c.toNat < 0xD800 ∨ 0xDFFF < c.toNat ∧ c.toNat < 0x110000 :=
  c.valid

theorem readString_unit (hc : c.toNat < 0x10000) (hmore : more ≠ []) :
    readString start 0 position (unitEscape c.toNat ++ more) =
      startingWith c (readString start 0 (position + 6) more) := by
  have hvalid := toNat_cases c
  have hhigh : isHighSurrogate c.toNat = false := by
    simp only [isHighSurrogate, Bool.and_eq_false_iff, decide_eq_false_iff_not]
    omega
  have hlow : isLowSurrogate c.toNat = false := by
    simp only [isLowSurrogate, Bool.and_eq_false_iff, decide_eq_false_iff_not]
    omega
  have hchar : unitChar c.toNat = c := by simp [unitChar, hhigh, hlow]
  have hread : readEscape start (position + 1) (('u' :: Text.hexDigits 4 c.toNat) ++ more) =
      .ok (c, 5) := by
    rw [List.cons_append, readEscape, if_pos rfl, readUnits_single hc hhigh hmore, hchar]
  have hlength : ('u' :: Text.hexDigits 4 c.toNat).length = 5 := by
    rw [List.length_cons, Text.length_hexDigits]
  exact readString_escape hlength hread

theorem readString_units (hc : ¬ c.toNat < 0x10000) (hmore : more ≠ []) :
    readString start 0 position
        (unitEscape (0xD800 + (c.toNat - 0x10000) / 0x400) ++
          unitEscape (0xDC00 + (c.toNat - 0x10000) % 0x400) ++ more) =
      startingWith c (readString start 0 (position + 12) more) := by
  have hvalid := toNat_cases c
  generalize hhighDef : 0xD800 + (c.toNat - 0x10000) / 0x400 = high
  generalize hlowDef : 0xDC00 + (c.toNat - 0x10000) % 0x400 = low
  have hhigh : isHighSurrogate high = true := by
    simp only [isHighSurrogate, Bool.and_eq_true, decide_eq_true_eq]
    omega
  have hlow : isLowSurrogate low = true := by
    simp only [isLowSurrogate, Bool.and_eq_true, decide_eq_true_eq]
    omega
  have hchar : pairChar high low = c := by
    have hcode : 0x10000 + (high - 0xD800) * 0x400 + (low - 0xDC00) = c.toNat := by omega
    rw [pairChar, hcode, Char.ofNat_toNat]
  have hread : readEscape start (position + 1)
      (('u' :: (Text.hexDigits 4 high ++ unitEscape low)) ++ more) = .ok (c, 11) := by
    rw [List.cons_append, readEscape, if_pos rfl, List.append_assoc,
      readUnits_pair hhigh hlow hmore, hchar]
  have hlength : ('u' :: (Text.hexDigits 4 high ++ unitEscape low)).length = 11 := by
    rw [List.length_cons, List.length_append, Text.length_hexDigits, unitEscape, List.length_cons,
      List.length_cons, Text.length_hexDigits]
  exact readString_escape hlength hread

/-- The forms in which a character is written inside a string. -/
inductive Escaped (c : Char) : List Char → Prop
  | letter {l : Char} (hu : l ≠ 'u') (h : simpleEscape? l = some c) (hl : l.toNat < 0x80) :
    Escaped c ['\\', l]
  | plain (hquote : c ≠ '"') (hbackslash : c ≠ '\\') (h : 0x20 ≤ c.toNat) (hl : c.toNat < 0x80) :
    Escaped c [c]
  | unit (h : c.toNat < 0x10000) : Escaped c (unitEscape c.toNat)
  | pair (h : ¬ c.toNat < 0x10000) :
    Escaped c (unitEscape (0xD800 + (c.toNat - 0x10000) / 0x400) ++
      unitEscape (0xDC00 + (c.toNat - 0x10000) % 0x400))

theorem escaped_escapeChar (c : Char) : Escaped c (escapeChar c) := by
  unfold escapeChar
  -- the seven characters that have a letter
  iterate 7
    split
    · rename_i h
      rw [h]
      exact .letter (by decide) rfl (by decide)
  rename_i hquote hbackslash _ _ _ _ _
  split
  · exact .plain hquote hbackslash (by omega) (by omega)
  split
  · rename_i hunit
    exact .unit hunit
  · rename_i hpair
    exact .pair hpair

/-- A character inside a string is read back, if the string does not end behind it. -/
theorem readString_escapeChar (c : Char) (hmore : more ≠ []) :
    readString start 0 position (escapeChar c ++ more) =
      startingWith c (readString start 0 (position + (escapeChar c).length) more) := by
  have hform := escaped_escapeChar c
  generalize escapeChar c = text at hform ⊢
  cases hform with
  | letter hu h _ => exact readString_letter hu h
  | plain hquote hbackslash h _ =>
    rw [List.singleton_append, readString, if_neg hquote, if_neg hbackslash, if_neg (by omega)]
    rfl
  | unit h => exact readString_unit h hmore
  | pair h => exact readString_units h hmore

theorem readString_flatMap (cs rest : List Char) :
    readString start 0 position (cs.flatMap escapeChar ++ '"' :: rest) =
      .ok (cs, position + (cs.flatMap escapeChar).length + 1, rest) := by
  induction cs generalizing position with
  | nil => rfl
  | cons c cs ih =>
    have hmore : cs.flatMap escapeChar ++ '"' :: rest ≠ [] := by simp
    rw [List.flatMap_cons, List.append_assoc, readString_escapeChar c hmore, ih, startingWith,
      List.length_append]
    simp [Except.map, Nat.add_assoc]

theorem readString_stringText (position : Nat) (s : String) (rest : List Char) :
    ∃ body, stringText s = '"' :: body ∧
      readString position 0 (position + 1) (body ++ rest) =
        .ok (s.toList, position + (stringText s).length, rest) := by
  refine ⟨s.toList.flatMap escapeChar ++ ['"'], stringText_eq s, ?_⟩
  rw [List.append_assoc, List.singleton_append, readString_flatMap]
  have hlength : (stringText s).length = (s.toList.flatMap escapeChar).length + 2 := by
    simp [stringText_eq]
  rw [hlength]
  simp only [Except.ok.injEq, Prod.mk.injEq, true_and, and_true]
  omega

theorem hexDigit_lt : ∀ n < 16, (Text.hexDigit n).toNat < 0x80 := by decide

theorem hexDigits_lt {d : Char} (width n : Nat) (h : d ∈ Text.hexDigits width n) :
    d.toNat < 0x80 := by
  induction width generalizing n with
  | zero => cases h
  | succ width ih =>
    rcases List.mem_append.mp h with h | h
    · exact ih _ h
    · rw [List.mem_singleton.mp h]
      exact hexDigit_lt _ (Nat.mod_lt _ (by decide))

theorem unitEscape_lt {d : Char} {unit : Nat} (h : d ∈ unitEscape unit) : d.toNat < 0x80 := by
  rcases List.mem_cons.mp h with rfl | h
  · decide
  rcases List.mem_cons.mp h with rfl | h
  · decide
  exact hexDigits_lt 4 unit h

theorem escapeChar_lt {d : Char} (h : d ∈ escapeChar c) : d.toNat < 0x80 := by
  have hform := escaped_escapeChar c
  generalize escapeChar c = text at hform h
  cases hform with
  | letter _ _ hl =>
    rcases List.mem_cons.mp h with rfl | h
    · decide
    · rwa [List.mem_singleton.mp h]
  | plain _ _ _ hl => rwa [List.mem_singleton.mp h]
  | unit _ => exact unitEscape_lt h
  | pair _ =>
    rcases List.mem_append.mp h with h | h
    · exact unitEscape_lt h
    · exact unitEscape_lt h

theorem stringText_lt {d : Char} {s : String} (h : d ∈ stringText s) : d.toNat < 0x80 := by
  rw [stringText_eq] at h
  rcases List.mem_append.mp h with h | h
  · rcases List.mem_cons.mp h with rfl | h
    · decide
    · obtain ⟨c, -, hc⟩ := List.mem_flatMap.mp h
      exact escapeChar_lt hc
  · rw [List.mem_singleton.mp h]
    decide

end ModelSchema.Json
