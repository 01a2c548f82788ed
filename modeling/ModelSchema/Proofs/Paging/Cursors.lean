import ModelSchema.Paging.Cursor
import ModelSchema.Proofs.Number.Literals

/-!
# Cursors that come back

A cursor spells an index in three layers: the digits of the index behind a fixed head, the bytes of
this text, and their Base64 form. Main statement: the cursor of an index stands for this index, so a
client that hands a cursor back names the item that it came with.
-/

namespace ModelSchema

variable {n place left pads : Nat} {bytes : List UInt8} {rest : List Char}

namespace Digest

/-- The characters of the alphabet are told apart, also from the padding. -/
theorem base64Char_spec : ∀ n < 64, base64Value? (base64Char n) = some n ∧ base64Char n ≠ '=' ∧
    (base64Char n).toNat < 0x80 := by
  decide +kernel

/-- A character of the alphabet completes the byte of which the bits `left` are known. -/
theorem base64DecodeFrom_base64Char (h : n < 64) :
    base64DecodeFrom 0 left pads (base64Char n :: rest) = base64DecodeFrom 1 n 0 rest ∧
    base64DecodeFrom 1 left pads (base64Char n :: rest) =
      (base64DecodeFrom 2 (n % 16) 0 rest).map (UInt8.ofNat (left * 4 + n / 16) :: ·) ∧
    base64DecodeFrom 2 left pads (base64Char n :: rest) =
      (base64DecodeFrom 3 (n % 4) 0 rest).map (UInt8.ofNat (left * 16 + n / 4) :: ·) ∧
    base64DecodeFrom 3 left pads (base64Char n :: rest) =
      (base64DecodeFrom 0 0 0 rest).map (UInt8.ofNat (left * 64 + n) :: ·) := by
  obtain ⟨hvalue, hpad, -⟩ := base64Char_spec n h
  refine ⟨?_, ?_, ?_, ?_⟩
  all_goals
    rw [base64DecodeFrom, if_neg hpad, hvalue]
    rfl

theorem ofNat_eq_of_toNat {b : UInt8} (h : n = b.toNat) : UInt8.ofNat n = b := by
  rw [h, UInt8.ofNat_toNat]

theorem base64DecodeFrom_base64Encode (bytes : List UInt8) :
    base64DecodeFrom 0 0 0 (base64Encode bytes) = some bytes := by
  fun_induction base64Encode bytes with
  | case1 => rfl
  | case2 a =>
    have ha := a.toNat_lt
    rw [(base64DecodeFrom_base64Char (by omega)).1, (base64DecodeFrom_base64Char (by omega)).2.1,
      ofNat_eq_of_toNat (b := a) (by omega)]
    rfl
  | case3 a b =>
    have ha := a.toNat_lt
    have hb := b.toNat_lt
    rw [(base64DecodeFrom_base64Char (by omega)).1, (base64DecodeFrom_base64Char (by omega)).2.1,
      (base64DecodeFrom_base64Char (by omega)).2.2.1, ofNat_eq_of_toNat (b := a) (by omega),
      ofNat_eq_of_toNat (b := b) (by omega)]
    rfl
  | case4 a b c rest ih =>
    have ha := a.toNat_lt
    have hb := b.toNat_lt
    have hc := c.toNat_lt
    rw [(base64DecodeFrom_base64Char (by omega)).1, (base64DecodeFrom_base64Char (by omega)).2.1,
      (base64DecodeFrom_base64Char (by omega)).2.2.1,
      (base64DecodeFrom_base64Char (by omega)).2.2.2, ih, ofNat_eq_of_toNat (b := a) (by omega),
      ofNat_eq_of_toNat (b := b) (by omega), ofNat_eq_of_toNat (b := c) (by omega)]
    rfl

theorem base64Encode_ascii (bytes : List UInt8) : ∀ c ∈ base64Encode bytes, c.toNat < 0x80 := by
  have hpad : '='.toNat < 0x80 := by decide
  fun_induction base64Encode bytes with
  | case1 => simp
  | case2 a =>
    have ha := a.toNat_lt
    simp only [List.forall_mem_cons]
    exact ⟨(base64Char_spec _ (by omega)).2.2, (base64Char_spec _ (by omega)).2.2, hpad, hpad,
      by simp⟩
  | case3 a b =>
    have ha := a.toNat_lt
    have hb := b.toNat_lt
    simp only [List.forall_mem_cons]
    exact ⟨(base64Char_spec _ (by omega)).2.2, (base64Char_spec _ (by omega)).2.2,
      (base64Char_spec _ (by omega)).2.2, hpad, by simp⟩
  | case4 a b c rest ih =>
    have ha := a.toNat_lt
    have hb := b.toNat_lt
    have hc := c.toNat_lt
    simp only [List.forall_mem_cons]
    exact ⟨(base64Char_spec _ (by omega)).2.2, (base64Char_spec _ (by omega)).2.2,
      (base64Char_spec _ (by omega)).2.2, (base64Char_spec _ (by omega)).2.2, ih⟩

theorem base64Decode?_base64Encode (bytes : List UInt8) :
    base64Decode? (base64Encode bytes) = some bytes := by
  have hascii : ((base64Encode bytes).all fun c => c.toNat < 0x80) = true := by
    rw [List.all_eq_true]
    intro c hc
    exact decide_eq_true (base64Encode_ascii bytes c hc)
  rw [base64Decode?, if_pos hascii, base64DecodeFrom_base64Encode]

end Digest

namespace Paging

theorem cursorText_ascii (index : Nat) :
    ∀ c ∈ cursorHead ++ Number.digits index, c.toNat < 0x80 := by
  have hhead : (cursorHead.all fun c => c.toNat < 0x80) = true := by decide
  have hdigit : ∀ d < 10, (Number.digitChar d).toNat < 0x80 := by decide
  refine List.forall_mem_append.mpr ⟨fun c hc => ?_, fun c hc => ?_⟩
  · exact of_decide_eq_true (List.all_eq_true.mp hhead c hc)
  · obtain ⟨d, hd, rfl⟩ := Number.exists_digitChar ((Number.isDigits_digits index).2 c hc)
    exact hdigit d hd

theorem cursorIndex?_cursor (index : Nat) : cursorIndex? (cursor index) = some (index : Int) := by
  have hread : Number.readInteger? (Number.digits index) = some (index : Int) :=
    (Number.readInteger?_of_digits (Number.isDigits_digits index)
      (Number.readDigits_digits index)).1
  rw [cursorIndex?, cursor, String.toList_ofList, Digest.base64Decode?_base64Encode,
    Option.bind_some, Text.decodeUtf8_asciiBytes (cursorText_ascii index), Option.bind_some,
    List.drop_left, hread]

end Paging

end ModelSchema
