import Mathlib.Algebra.Group.Nat.Defs
import Mathlib.Data.List.TakeWhile
import ModelSchema.Number.IntegerText
import ModelSchema.Proofs.Json.Atoms

/-!
# The numbers of queries

A query writes an integer as digits behind an optional minus, and any other number with a fraction
and an exponent behind the digits, each of them optional. Main statements: such texts are read as
numbers, and the digits of an integer are read back as the integer.
-/

namespace ModelSchema.Number

variable {c : Char} {cs ds sign fraction exponent : List Char}

/-- One or more of the digits `0` to `9`. -/
def IsDigits (cs : List Char) : Prop := cs ≠ [] ∧ ∀ c ∈ cs, (Text.asciiDigit? c).isSome = true

/-- The sign of a literal: a minus or nothing. -/
def IsMinus (cs : List Char) : Prop := cs = [] ∨ cs = ['-']

def IsFraction (cs : List Char) : Prop := cs = [] ∨ ∃ ds, IsDigits ds ∧ cs = '.' :: ds

def IsExponent (cs : List Char) : Prop :=
  cs = [] ∨ ∃ mark sign ds, (mark = 'e' ∨ mark = 'E') ∧ (sign = [] ∨ sign = ['+'] ∨ sign = ['-']) ∧
    IsDigits ds ∧ cs = mark :: (sign ++ ds)

def IsIntegerLiteral (s : String) : Prop :=
  ∃ sign ds, s.toList = sign ++ ds ∧ IsMinus sign ∧ IsDigits ds

def IsDecimalLiteral (s : String) : Prop :=
  ∃ sign whole fraction exponent, s.toList = sign ++ (whole ++ (fraction ++ exponent)) ∧
    IsMinus sign ∧ IsDigits whole ∧ IsFraction fraction ∧ IsExponent exponent

theorem exists_digitChar (h : (Text.asciiDigit? c).isSome = true) : ∃ d < 10, c = digitChar d := by
  unfold Text.asciiDigit? at h
  split at h
  · rename_i hc
    have hlow : '0'.toNat ≤ c.toNat := hc.1
    have hhigh : c.toNat ≤ '9'.toNat := hc.2
    have hzero : '0'.toNat = 48 := rfl
    have hnine : '9'.toNat = 57 := rfl
    refine ⟨c.toNat - 48, by omega, ?_⟩
    have hcode : 48 + (c.toNat - 48) = c.toNat := by omega
    rw [digitChar, hzero, hcode, Char.ofNat_toNat]
  · cases h

/-- The characters that numbers are written with. -/
def IsNumeral (c : Char) : Prop :=
  (Text.asciiDigit? c).isSome = true ∨ c ∈ ['-', '+', '.', 'e', 'E']

/-- A numeral is read as it is: it is no blank and joins no digits. -/
theorem IsNumeral.plain (h : IsNumeral c) :
    isNumberBlank c = false ∧ plainDigit c = c ∧ c ≠ '_' := by
  rcases h with h | h
  · obtain ⟨d, hd, rfl⟩ := exists_digitChar h
    have hblank : ∀ n < 10, isNumberBlank (digitChar n) = false := by decide
    exact ⟨hblank d hd, plainDigit_digitChar hd, digitChar_ne d hd '_' (by decide)⟩
  · simp only [List.mem_cons, List.not_mem_nil, or_false] at h
    rcases h with rfl | rfl | rfl | rfl | rfl
    all_goals decide

theorem dropWhile_isNumberBlank (h : ∀ c ∈ cs, isNumberBlank c = false) :
    cs.dropWhile isNumberBlank = cs := by
  cases cs with
  | nil => rfl
  | cons c rest => rw [List.dropWhile_cons_of_neg (by simp [h c])]

theorem trimNumber_of_numerals (h : ∀ c ∈ cs, IsNumeral c) : trimNumber cs = cs := by
  have hblank : ∀ c ∈ cs, isNumberBlank c = false := fun c hc => (h c hc).plain.1
  have hreverse : ∀ c ∈ cs.reverse, isNumberBlank c = false :=
    fun c hc => hblank c (List.mem_reverse.mp hc)
  rw [trimNumber, dropWhile_isNumberBlank hblank, dropWhile_isNumberBlank hreverse,
    List.reverse_reverse]

theorem IsDigits.numerals (h : IsDigits ds) : ∀ c ∈ ds, IsNumeral c := fun c hc => .inl (h.2 c hc)

theorem IsMinus.numerals (h : IsMinus cs) : ∀ c ∈ cs, IsNumeral c := by
  rcases h with rfl | rfl <;> simp [IsNumeral]

theorem IsFraction.numerals (h : IsFraction cs) : ∀ c ∈ cs, IsNumeral c := by
  rcases h with rfl | ⟨ds, hds, rfl⟩
  · simp
  · exact List.forall_mem_cons.mpr ⟨.inr (by simp), hds.numerals⟩

theorem IsExponent.numerals (h : IsExponent cs) : ∀ c ∈ cs, IsNumeral c := by
  rcases h with rfl | ⟨mark, sign, ds, hmark, hsign, hds, rfl⟩
  · simp
  · refine List.forall_mem_cons.mpr ⟨.inr (by rcases hmark with rfl | rfl <;> simp), ?_⟩
    refine List.forall_mem_append.mpr ⟨?_, hds.numerals⟩
    rcases hsign with rfl | rfl | rfl <;> simp [IsNumeral]

theorem exists_readDigits (h : ∀ c ∈ ds, (Text.asciiDigit? c).isSome = true) (value : Nat) :
    ∃ n, readDigits value ds = some n := by
  induction ds generalizing value with
  | nil => exact ⟨value, rfl⟩
  | cons c rest ih =>
    rw [List.forall_mem_cons] at h
    obtain ⟨d, hd⟩ := Option.isSome_iff_exists.mp h.1
    obtain ⟨n, hn⟩ := ih h.2 (value * 10 + d)
    exact ⟨n, by rw [readDigits, hd]; exact hn⟩

theorem digitValue?_of_asciiDigit? (h : (Text.asciiDigit? c).isSome = true) :
    Text.digitValue? c = Text.asciiDigit? c := by
  obtain ⟨d, hd, rfl⟩ := exists_digitChar h
  rw [digitValue?_digitChar d hd, asciiDigit?_digitChar d hd]

theorem readUnderscored_eq_readDigits (h : ∀ c ∈ ds, (Text.asciiDigit? c).isSome = true)
    (value : Nat) : readUnderscored value ds = readDigits value ds := by
  induction ds generalizing value with
  | nil => rfl
  | cons c rest ih =>
    rw [List.forall_mem_cons] at h
    obtain ⟨d, hd⟩ := Option.isSome_iff_exists.mp h.1
    have hplain : c ≠ '_' := (IsNumeral.plain (.inl h.1)).2.2
    rw [readUnderscored, readDigits, digitValue?_of_asciiDigit? h.1, hd, Option.bind_some]
    · exact ih h.2 _
    · intro next tail heq
      exact absurd heq hplain

theorem readNatural?_eq_readDigits (h : IsDigits ds) : readNatural? ds = readDigits 0 ds := by
  obtain ⟨hne, hall⟩ := h
  cases ds with
  | nil => exact absurd rfl hne
  | cons c rest =>
    rw [List.forall_mem_cons] at hall
    obtain ⟨d, hd⟩ := Option.isSome_iff_exists.mp hall.1
    have hfirst : readDigits 0 (c :: rest) = readDigits d rest := by
      simp only [readDigits, hd, Nat.zero_mul, Nat.zero_add]
    rw [readNatural?, digitValue?_of_asciiDigit? hall.1, hd, Option.bind_some, hfirst,
      readUnderscored_eq_readDigits hall.2]

theorem IsDigits.no_sign (h : IsDigits ds) (more : List Char) : ∀ rest,
    ds ++ more ≠ '-' :: rest ∧ ds ++ more ≠ '+' :: rest := by
  obtain ⟨hne, hall⟩ := h
  cases ds with
  | nil => exact absurd rfl hne
  | cons c tail =>
    obtain ⟨d, hd, rfl⟩ := exists_digitChar (hall c List.mem_cons_self)
    intro rest
    constructor
    · intro heq
      exact digitChar_ne d hd '-' (by decide) (List.cons.inj heq).1
    · intro heq
      exact digitChar_ne d hd '+' (by decide) (List.cons.inj heq).1

theorem IsDigits.takeSign_append (h : IsDigits ds) (more : List Char) :
    takeSign (ds ++ more) = (false, ds ++ more) := by
  have hno := h.no_sign more
  unfold takeSign
  split
  · exact absurd ‹_› (hno _).1
  · exact absurd ‹_› (hno _).2
  · rfl

theorem readInteger?_of_digits {n : Nat} (h : IsDigits ds) (hn : readDigits 0 ds = some n) :
    readInteger? ds = some (n : Int) ∧ readInteger? ('-' :: ds) = some (-(n : Int)) := by
  have hminus : ∀ c ∈ '-' :: ds, IsNumeral c :=
    List.forall_mem_cons.mpr ⟨.inr (by simp), h.numerals⟩
  have hread : readNatural? ds = some n := by rw [readNatural?_eq_readDigits h, hn]
  have hsign := h.no_sign []
  rw [List.append_nil] at hsign
  constructor
  · rw [readInteger?, trimNumber_of_numerals h.numerals]
    split
    · exact absurd rfl (hsign _).1
    · exact absurd rfl (hsign _).2
    · rw [hread]
      rfl
  · rw [readInteger?, trimNumber_of_numerals hminus]
    simp [hread]

theorem IsIntegerLiteral.exists_read {s : String} (h : IsIntegerLiteral s) :
    ∃ n, readInteger? s.toList = some n := by
  obtain ⟨sign, ds, hs, hsign, hds⟩ := h
  obtain ⟨n, hn⟩ := exists_readDigits hds.2 0
  have hread := readInteger?_of_digits hds hn
  rw [hs]
  rcases hsign with rfl | rfl
  · exact ⟨n, hread.1⟩
  · exact ⟨-n, hread.2⟩

theorem headDigits_of_digits (hsign : IsMinus sign) (h : IsDigits ds) :
    headDigits (sign ++ ds) = ds := by
  have htrim : trimNumber (sign ++ ds) = sign ++ ds :=
    trimNumber_of_numerals (List.forall_mem_append.mpr ⟨hsign.numerals, h.numerals⟩)
  have htake : (takeSign (sign ++ ds)).2 = ds := by
    rcases hsign with rfl | rfl
    · have hno := h.takeSign_append []
      rw [List.append_nil] at hno
      rw [List.nil_append, hno]
    · rfl
  have hall : ∀ c ∈ ds, (c == '_' || (Text.digitValue? c).isSome) = true := by
    intro c hc
    simp [digitValue?_of_asciiDigit? (h.2 c hc), h.2 c hc]
  rw [headDigits, htrim, htake, List.takeWhile_eq_self_iff.mpr hall]

theorem textDigits_of_digits (hsign : IsMinus sign) (h : IsDigits ds) :
    textDigits (sign ++ ds) = ds.length := by
  rw [textDigits, headDigits_of_digits hsign h, List.countP_eq_length]
  intro c hc
  simpa using (IsNumeral.plain (.inl (h.2 c hc))).2.2

theorem IsIntegerLiteral.parseInteger_eq {s : String} (h : IsIntegerLiteral s) :
    (textDigits s.toList ≤ digitLimit →
      ∃ n, readInteger? s.toList = some n ∧ parseInteger s = .ok n) ∧
    (digitLimit < textDigits s.toList →
      parseInteger s = .error (.textTooLong (textDigits s.toList))) := by
  obtain ⟨n, hn⟩ := h.exists_read
  constructor
  · intro hshort
    refine ⟨n, hn, ?_⟩
    rw [parseInteger, if_neg (by simp [Nat.not_lt.mpr hshort]), hn]
  · intro hlong
    obtain ⟨sign, ds, hs, hsign, hds⟩ := h
    obtain ⟨m, hm⟩ := exists_readDigits hds.2 0
    have hread : (readNatural? (headDigits s.toList)).isSome = true := by
      rw [hs, headDigits_of_digits hsign hds, readNatural?_eq_readDigits hds, hm]
      rfl
    rw [parseInteger, if_pos (by simp [hlong, hread])]

theorem isDigits_digits (n : Nat) : IsDigits (digits n) := by
  obtain ⟨d, front, heq, hd, hfront, -⟩ := digits_cons n
  rw [heq]
  exact ⟨by simp, List.forall_mem_cons.mpr ⟨isSome_asciiDigit?_digitChar hd, hfront⟩⟩

theorem exists_sign_integerText (n : Int) :
    ∃ sign, IsMinus sign ∧ (integerText n).toList = sign ++ digits n.natAbs := by
  rw [integerText, String.toList_ofList, integerDigits]
  by_cases hn : n < 0
  · exact ⟨['-'], .inr rfl, if_pos hn⟩
  · exact ⟨[], .inl rfl, if_neg hn⟩

theorem isIntegerLiteral_integerText (n : Int) : IsIntegerLiteral (integerText n) := by
  obtain ⟨sign, hsign, htext⟩ := exists_sign_integerText n
  exact ⟨sign, digits n.natAbs, htext, hsign, isDigits_digits _⟩

theorem readInteger?_integerText (n : Int) : readInteger? (integerText n).toList = some n := by
  have hread := readInteger?_of_digits (isDigits_digits n.natAbs) (readDigits_digits n.natAbs)
  rw [integerText, String.toList_ofList, integerDigits]
  by_cases hn : n < 0
  · rw [if_pos hn, hread.2]
    congr 1
    omega
  · rw [if_neg hn, hread.1]
    congr 1
    omega

theorem textDigits_integerText (n : Int) : textDigits (integerText n).toList = digitCount n := by
  obtain ⟨sign, hsign, htext⟩ := exists_sign_integerText n
  rw [htext, textDigits_of_digits hsign (isDigits_digits _), digitCount]

theorem parseInteger_integerText {n : Int} (hn : isShort n = true) :
    parseInteger (integerText n) = .ok n := by
  have hlimit : textDigits (integerText n).toList ≤ digitLimit := by
    rw [textDigits_integerText]
    exact of_decide_eq_true hn
  obtain ⟨m, hm, hparse⟩ := (isIntegerLiteral_integerText n).parseInteger_eq.1 hlimit
  rw [readInteger?_integerText] at hm
  rw [hparse, Option.some.inj hm]

theorem parseInteger_of_long {n : Int} (hn : isShort n = false) :
    parseInteger (integerText n) = .error (.textTooLong (digitCount n)) := by
  have hlimit : digitLimit < textDigits (integerText n).toList := by
    rw [textDigits_integerText]
    exact Nat.lt_of_not_le (of_decide_eq_false hn)
  rw [(isIntegerLiteral_integerText n).parseInteger_eq.2 hlimit, textDigits_integerText]

/-- A number is smaller than the power of ten with as many zeros as it has digits. -/
theorem readDigits_lt {value n : Nat} (h : readDigits value ds = some n) :
    n < (value + 1) * 10 ^ ds.length := by
  induction ds generalizing value with
  | nil =>
    cases h
    simp
  | cons c rest ih =>
    rw [readDigits] at h
    split at h
    · rename_i d hd
      have hlt := Text.asciiDigit?_lt hd
      calc
        n < (value * 10 + d + 1) * 10 ^ rest.length := ih h
        _ ≤ ((value + 1) * 10) * 10 ^ rest.length := Nat.mul_le_mul_right _ (by omega)
        _ = (value + 1) * 10 ^ (c :: rest).length := by
          rw [List.length_cons, Nat.pow_succ, Nat.mul_assoc, Nat.mul_comm 10]
    · cases h

theorem isShort_eq_false {n : Int} (h : 10 ^ digitLimit ≤ n.natAbs) : isShort n = false := by
  have hlt := readDigits_lt (readDigits_digits n.natAbs)
  rw [Nat.zero_add, Nat.one_mul] at hlt
  have hpow : 10 ^ digitLimit < 10 ^ digitCount n := Nat.lt_of_le_of_lt h hlt
  exact decide_eq_false (Nat.not_le.mpr ((Nat.pow_lt_pow_iff_right (by decide)).mp hpow))

theorem spanDigits_of_digits (h : IsDigits ds) : spanDigits ds = (ds, []) := by
  have hspan : spanDigits (ds ++ []) = (ds, []) := spanDigits_append h.2 (by simp)
  rwa [List.append_nil] at hspan

theorem IsExponent.no_digit (h : IsExponent exponent) :
    ∀ c ∈ exponent.head?, Text.asciiDigit? c = none ∧ c ≠ '.' := by
  rcases h with rfl | ⟨mark, sign, ds, rfl | rfl, -, -, rfl⟩
  · simp
  · rintro c ⟨⟩
    decide
  · rintro c ⟨⟩
    decide

theorem IsExponent.takeExponent (h : IsExponent exponent) :
    ∃ n, (takeExponent? exponent).getD (0, exponent) = (n, []) := by
  rcases h with rfl | ⟨mark, sign, ds, hmark, hsign, hds, rfl⟩
  · exact ⟨0, rfl⟩
  · have htake : ∃ negative, takeSign (sign ++ ds) = (negative, ds) := by
      rcases hsign with rfl | rfl | rfl
      · have hplain := hds.takeSign_append []
        rw [List.append_nil] at hplain
        exact ⟨false, hplain⟩
      · exact ⟨false, rfl⟩
      · exact ⟨true, rfl⟩
    obtain ⟨negative, hnegative⟩ := htake
    rw [takeExponent?, if_pos hmark, hnegative]
    simp only [spanDigits_of_digits hds]
    split
    · rename_i heq
      exact absurd (congrArg Prod.fst heq) hds.1
    · rename_i heq
      obtain ⟨rfl, rfl⟩ := Prod.mk.inj heq
      exact ⟨_, rfl⟩

theorem takeDecimal?_of_literal {whole : List Char} (hw : IsDigits whole) (hf : IsFraction fraction)
    (he : IsExponent exponent) :
    ∃ n power, takeDecimal? (whole ++ (fraction ++ exponent)) = some (n, power, []) := by
  have hstop : ∀ c ∈ (fraction ++ exponent).head?, Text.asciiDigit? c = none := by
    rcases hf with rfl | ⟨ds, -, rfl⟩
    · exact fun c hc => (he.no_digit c hc).1
    · rintro c ⟨⟩
      decide
  have hwhole : spanDigits (whole ++ (fraction ++ exponent)) = (whole, fraction ++ exponent) :=
    spanDigits_append hw.2 hstop
  have hsome : whole.isEmpty = false := by simpa using hw.1
  obtain ⟨power, hpower⟩ := he.takeExponent
  unfold takeDecimal?
  rw [hwhole]
  rcases hf with rfl | ⟨ds, hds, rfl⟩
  · obtain ⟨n, hn⟩ := exists_readDigits hw.2 0
    refine ⟨n, power, ?_⟩
    rw [List.nil_append]
    dsimp only
    split
    · exact absurd rfl (he.no_digit _ rfl).2
    · simp [hsome, hpower, hn]
  · obtain ⟨n, hn⟩ := exists_readDigits (List.forall_mem_append.mpr ⟨hw.2, hds.2⟩) 0
    have hfraction : spanDigits (ds ++ exponent) = (ds, exponent) :=
      spanDigits_append hds.2 fun c hc => (he.no_digit c hc).1
    refine ⟨n, power - ds.length, ?_⟩
    simp [hfraction, hsome, hpower, hn]

theorem takeSign_of_literal {sign whole : List Char} (hs : IsMinus sign) (hw : IsDigits whole)
    (rest : List Char) :
    ∃ negative, takeSign (sign ++ (whole ++ rest)) = (negative, whole ++ rest) := by
  rcases hs with rfl | rfl
  · exact ⟨false, hw.takeSign_append rest⟩
  · exact ⟨true, rfl⟩

theorem IsDecimalLiteral.exists_read {s : String} (h : IsDecimalLiteral s) :
    ∃ x, readFloat? s = some x := by
  obtain ⟨sign, whole, fraction, exponent, hs, hsign, hwhole, hfraction, hexponent⟩ := h
  have hall : ∀ c ∈ s.toList, IsNumeral c := by
    rw [hs]
    simp only [List.forall_mem_append]
    exact ⟨hsign.numerals, hwhole.numerals, hfraction.numerals, hexponent.numerals⟩
  have hplain : s.toList.map plainDigit = s.toList := by
    calc
      _ = s.toList.map id := List.map_congr_left fun c hc => (hall c hc).plain.2.1
      _ = s.toList := List.map_id _
  have hgroup : '_' ∉ s.toList := fun hmem => (hall '_' hmem).plain.2.2 rfl
  obtain ⟨negative, hnegative⟩ := takeSign_of_literal hsign hwhole (fraction ++ exponent)
  obtain ⟨n, power, hdecimal⟩ := takeDecimal?_of_literal hwhole hfraction hexponent
  rw [readFloat?, trimNumber_of_numerals hall, hplain, joinGroups?_of_not_mem hgroup,
    Option.bind_some, hs]
  unfold readPlainFloat?
  simp only [hnegative, hdecimal]
  split <;> exact ⟨_, rfl⟩

end ModelSchema.Number
