import Mathlib.Data.List.TakeDrop
import ModelSchema.Json.Reader
import ModelSchema.Json.Writer

/-!
# Atoms that are read back

The names of the values that are not numbers, and the digits of an integer, are read back as what
they stand for. The digits of an integer only end where no digit, fraction or exponent follows.
-/

namespace ModelSchema

variable {c : Char} {cs rest : List Char}

namespace Number

theorem isSome_asciiDigit?_digitChar {n : Nat} (h : n < 10) :
    (Text.asciiDigit? (digitChar n)).isSome = true := by
  rw [asciiDigit?_digitChar n h]
  rfl

theorem digitChar_ne_zero : ∀ n < 10, n ≠ 0 → digitChar n ≠ '0' := by decide

theorem toNat_digitChar : ∀ n < 10, (digitChar n).toNat = 48 + n := by decide

theorem digitChar_ne (n : Nat) (h : n < 10) (c : Char) (hc : c.toNat < 48 ∨ 57 < c.toNat) :
    digitChar n ≠ c := by
  intro heq
  have hn := toNat_digitChar n h
  rw [heq] at hn
  omega

theorem digitsOnto_cons (fuel n : Nat) (tail : List Char) (h : n < fuel) :
    ∃ d front, digitsOnto fuel n tail = digitChar d :: (front ++ tail) ∧ d < 10 ∧
      (∀ c ∈ front, (Text.asciiDigit? c).isSome = true) ∧ (d = 0 → n = 0 ∧ front = []) := by
  induction fuel generalizing n tail with
  | zero => omega
  | succ fuel ih =>
    unfold digitsOnto
    by_cases hn : n < 10
    · rw [if_pos hn]
      exact ⟨n, [], rfl, hn, by simp, fun hd => ⟨hd, rfl⟩⟩
    · rw [if_neg hn]
      obtain ⟨d, front, heq, hd, hfront, hzero⟩ :=
        ih (n / 10) (digitChar (n % 10) :: tail) (by omega)
      have hlast : n % 10 < 10 := Nat.mod_lt n (by decide)
      refine ⟨d, front ++ [digitChar (n % 10)], by rw [heq, List.append_assoc]; rfl, hd, ?_, ?_⟩
      · intro c hc
        rcases List.mem_append.mp hc with hc | hc
        · exact hfront c hc
        · rw [List.mem_singleton.mp hc]
          exact isSome_asciiDigit?_digitChar hlast
      · intro hd0
        have hquotient := (hzero hd0).1
        omega

/-- Only zero is written with a zero in front, and then alone. -/
theorem digits_cons (n : Nat) :
    ∃ d front, digits n = digitChar d :: front ∧ d < 10 ∧
      (∀ c ∈ front, (Text.asciiDigit? c).isSome = true) ∧ (d = 0 → n = 0 ∧ front = []) := by
  obtain ⟨d, front, heq, hrest⟩ := digitsOnto_cons (n + 1) n [] (by omega)
  exact ⟨d, front, by rw [digits, heq, List.append_nil], hrest⟩

theorem toNat_of_isSome_asciiDigit? (h : (Text.asciiDigit? c).isSome = true) :
    45 ≤ c.toNat ∧ c.toNat ≤ 57 := by
  unfold Text.asciiDigit? at h
  split at h
  · rename_i hc
    have hlow : '0'.toNat ≤ c.toNat := hc.1
    have hhigh : c.toNat ≤ '9'.toNat := hc.2
    have hzero : '0'.toNat = 48 := rfl
    have hnine : '9'.toNat = 57 := rfl
    omega
  · cases h

/-- An integer begins with a digit or a sign, and its characters range from the sign to the nine. -/
theorem integerDigits_cons (n : Int) :
    ∃ c tail, integerDigits n = c :: tail ∧ ∀ d ∈ c :: tail, 45 ≤ d.toNat ∧ d.toNat ≤ 57 := by
  obtain ⟨d, front, heq, hd, hfront, -⟩ := digits_cons n.natAbs
  have hall : ∀ c ∈ digits n.natAbs, 45 ≤ c.toNat ∧ c.toNat ≤ 57 := by
    intro c hc
    rw [heq] at hc
    rcases List.mem_cons.mp hc with rfl | hc
    · exact toNat_of_isSome_asciiDigit? (isSome_asciiDigit?_digitChar hd)
    · exact toNat_of_isSome_asciiDigit? (hfront c hc)
  unfold integerDigits
  by_cases hn : n < 0
  · rw [if_pos hn]
    refine ⟨_, _, rfl, ?_⟩
    intro c hc
    rcases List.mem_cons.mp hc with rfl | hc
    · decide
    · exact hall c hc
  · rw [if_neg hn, heq]
    rw [heq] at hall
    exact ⟨_, _, rfl, hall⟩

theorem spanDigits_append (hcs : ∀ c ∈ cs, (Text.asciiDigit? c).isSome = true)
    (hrest : ∀ c ∈ rest.head?, Text.asciiDigit? c = none) :
    spanDigits (cs ++ rest) = (cs, rest) := by
  have hstop : rest.takeWhile (fun c => (Text.asciiDigit? c).isSome) = [] ∧
      rest.dropWhile (fun c => (Text.asciiDigit? c).isSome) = rest := by
    cases rest with
    | nil => exact ⟨rfl, rfl⟩
    | cons c tail =>
      have hc : ¬ (Text.asciiDigit? c).isSome = true := by simp [hrest c rfl]
      exact ⟨List.takeWhile_cons_of_neg hc, List.dropWhile_cons_of_neg hc⟩
  rw [spanDigits, List.span_eq_takeWhile_dropWhile, List.takeWhile_append_of_pos hcs,
    List.dropWhile_append_of_pos hcs, hstop.1, hstop.2, List.append_nil]

end Number

namespace Json

/-- A value ends where nothing follows, or a separator or a closing bracket. -/
def Stops (rest : List Char) : Prop := ∀ c ∈ rest.head?, c = ',' ∨ c = ']' ∨ c = '\x7d'

theorem stops_nil : Stops [] := by
  intro c hc
  cases hc

theorem stops_cons (hc : c = ',' ∨ c = ']' ∨ c = '\x7d') (tail : List Char) :
    Stops (c :: tail) := by
  intro d hd
  cases hd
  exact hc

theorem Stops.head_cases (h : Stops rest) :
    rest = [] ∨ ∃ c tail, rest = c :: tail ∧ (c = ',' ∨ c = ']' ∨ c = '\x7d') := by
  cases rest with
  | nil => exact .inl rfl
  | cons c tail => exact .inr ⟨c, tail, rfl, h c rfl⟩

theorem Stops.no_digit (h : Stops rest) : ∀ c ∈ rest.head?, Text.asciiDigit? c = none := by
  intro c hc
  rcases h c hc with rfl | rfl | rfl <;> decide

theorem Stops.takeFraction (h : Stops rest) : takeFraction rest = ([], rest) := by
  rcases h.head_cases with rfl | ⟨c, tail, rfl, rfl | rfl | rfl⟩ <;> rfl

theorem Stops.takeExponent? (h : Stops rest) : Number.takeExponent? rest = none := by
  rcases h.head_cases with rfl | ⟨c, tail, rfl, rfl | rfl | rfl⟩ <;> rfl

theorem takeWhole_digits (n : Nat) (h : Stops rest) :
    takeWhole (Number.digits n ++ rest) = (Number.digits n, rest) := by
  obtain ⟨d, front, heq, hd, hfront, hzero⟩ := Number.digits_cons n
  rw [heq]
  by_cases hd0 : d = 0
  · obtain ⟨-, rfl⟩ := hzero hd0
    rw [hd0]
    rfl
  · have hhead : Number.digitChar d ≠ '0' := Number.digitChar_ne_zero d hd hd0
    have hall : ∀ c ∈ Number.digitChar d :: front, (Text.asciiDigit? c).isSome = true := by
      intro c hc
      rcases List.mem_cons.mp hc with rfl | hc
      · exact Number.isSome_asciiDigit?_digitChar hd
      · exact hfront c hc
    rw [List.cons_append, takeWhole, ← List.cons_append]
    · exact Number.spanDigits_append hall h.no_digit
    · intro tail heq'
      exact hhead (List.cons.inj heq').1

theorem readNumber?_integerDigits (n : Int) (h : Stops rest) :
    readNumber? (Number.integerDigits n ++ rest) = some (.int n, rest) := by
  have hvalue : n = if n < 0 then -(n.natAbs : Int) else n.natAbs := by omega
  have hwhole := takeWhole_digits n.natAbs h
  have hread := Number.readDigits_digits n.natAbs
  unfold Number.integerDigits
  generalize n.natAbs = m at *
  obtain ⟨d, front, heq, hd, -⟩ := Number.digits_cons m
  have hsign : Number.digitChar d ≠ '-' := Number.digitChar_ne d hd _ (by decide)
  rw [heq] at hwhole hread ⊢
  rw [List.cons_append] at hwhole
  unfold readNumber?
  by_cases hn : n < 0
  · rw [if_pos hn] at hvalue ⊢
    simp [hwhole, h.takeFraction, h.takeExponent?, hread, hvalue]
  · rw [if_neg hn] at hvalue ⊢
    simp [hsign, hwhole, h.takeFraction, h.takeExponent?, hread, hvalue]

theorem readAtom_null (position : Nat) (rest : List Char) :
    readAtom position ("null".toList ++ rest) = .ok (.null, position + 4, rest) := by
  rfl

theorem readAtom_bool (position : Nat) (b : Bool) (rest : List Char) :
    readAtom position ((boolText b).toList ++ rest) =
      .ok (.bool b, position + (boolText b).toList.length, rest) := by
  cases b <;> rfl

theorem find?_names_integerDigits (n : Int) (rest : List Char) :
    (names.find? fun row => row.1.toList.isPrefixOf (Number.integerDigits n ++ rest)) = none := by
  obtain ⟨d, front, heq, hd, -⟩ := Number.digits_cons n.natAbs
  have hn : Number.digitChar d ≠ 'n' := Number.digitChar_ne d hd _ (by decide)
  have ht : Number.digitChar d ≠ 't' := Number.digitChar_ne d hd _ (by decide)
  have hf : Number.digitChar d ≠ 'f' := Number.digitChar_ne d hd _ (by decide)
  have hN : Number.digitChar d ≠ 'N' := Number.digitChar_ne d hd _ (by decide)
  have hI : Number.digitChar d ≠ 'I' := Number.digitChar_ne d hd _ (by decide)
  have hm : Number.digitChar d ≠ '-' := Number.digitChar_ne d hd _ (by decide)
  unfold Number.integerDigits
  rw [heq]
  split <;> simp [names, hn.symm, ht.symm, hf.symm, hN.symm, hI.symm, hm.symm]

theorem readAtom_integerDigits {n : Int} (position : Nat) (hn : Number.isShort n = true)
    (h : Stops rest) :
    readAtom position (Number.integerDigits n ++ rest) =
      .ok (.int n, position + (Number.integerDigits n).length, rest) := by
  unfold readAtom
  rw [find?_names_integerDigits, readNumber?_integerDigits n h]
  simp [hn]

end Json

end ModelSchema
