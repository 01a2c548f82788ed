import Mathlib.NumberTheory.Padics.PadicVal.Basic
import ModelSchema.Proofs.Value.Sameness

/-!
# Numbers of different kinds

Truth values, integers, binary and decimal fractions are compared by their exact forms. An exact
form stands for a rational number, and its core is divisible by neither two nor five, so that the
exponents are the valuations of the number. Main statement: two numbers of whichever kinds are the
same exactly if they have the same rational value.
-/

namespace ModelSchema

namespace Number

variable {factor fuel n : Nat}

theorem stripFactor_of_dvd (h : n % factor = 0) (fuel : Nat) :
    stripFactor factor (fuel + 1) n =
      ((stripFactor factor fuel (n / factor)).1 + 1, (stripFactor factor fuel (n / factor)).2) := by
  rw [stripFactor, if_pos h]

theorem stripFactor_of_not_dvd (h : n % factor ≠ 0) (fuel : Nat) :
    stripFactor factor (fuel + 1) n = (0, n) := by
  rw [stripFactor, if_neg h]

theorem stripFactor_mul (factor fuel n : Nat) :
    (stripFactor factor fuel n).2 * factor ^ (stripFactor factor fuel n).1 = n := by
  induction fuel generalizing n with
  | zero => exact Nat.mul_one n
  | succ fuel ih =>
    by_cases h : n % factor = 0
    · rw [stripFactor_of_dvd h, Nat.pow_succ, ← Nat.mul_assoc, ih]
      exact Nat.div_mul_cancel (Nat.dvd_of_mod_eq_zero h)
    · rw [stripFactor_of_not_dvd h]
      exact Nat.mul_one n

/-- A factor is stripped off completely if there is fuel for each binary digit. -/
theorem not_dvd_stripFactor (hf : 2 ≤ factor) (hn : n ≠ 0) (h : n < 2 ^ fuel) :
    ¬ factor ∣ (stripFactor factor fuel n).2 := by
  induction fuel generalizing n with
  | zero => exact absurd (Nat.lt_one_iff.mp h) hn
  | succ fuel ih =>
    by_cases hd : n % factor = 0
    · have hdvd := Nat.dvd_of_mod_eq_zero hd
      have hle : n / factor ≤ n / 2 := Nat.div_le_div_left hf (by decide)
      rw [stripFactor_of_dvd hd]
      apply ih
      · exact (Nat.div_pos (Nat.le_of_dvd (Nat.pos_of_ne_zero hn) hdvd) (by omega)).ne'
      · rw [Nat.pow_succ] at h
        omega
    · rw [stripFactor_of_not_dvd hd]
      exact fun hdvd => hd (Nat.mod_eq_zero_of_dvd hdvd)

/-- A whole number with a sign. -/
def signed (negative : Bool) (n : Nat) : ℚ := if negative then -n else n

theorem signed_mul (negative : Bool) (m n : Nat) :
    signed negative (m * n) = signed negative m * n := by
  cases negative <;> simp [signed]

namespace Exact

/-- The number that a form stands for. -/
def value (x : Exact) : ℚ := signed x.negative x.core * 2 ^ x.twos * 5 ^ x.fives

/-- The form is the one of its number: zero, or with a core that has no factor two or five. -/
def Canonical (x : Exact) : Prop := x = ⟨false, 0, 0, 0⟩ ∨ ¬ 2 ∣ x.core ∧ ¬ 5 ∣ x.core

variable {x y : Exact} {negative : Bool} {twos fives : Int}

/-- The form of a number other than zero has all its factors two and five in the exponents. -/
theorem exists_make (negative : Bool) (twos fives : Int) (hn : n ≠ 0) :
    ∃ a b core : Nat, make negative n twos fives = ⟨negative, core, twos + a, fives + b⟩ ∧
      n = core * 5 ^ b * 2 ^ a ∧ ¬ 2 ∣ core ∧ ¬ 5 ∣ core := by
  have hodd := stripFactor_mul 2 (n.log2 + 1) n
  have hcore := stripFactor_mul 5 (n.log2 + 1) (stripFactor 2 (n.log2 + 1) n).2
  have hlt : n < 2 ^ (n.log2 + 1) := Nat.lt_log2_self
  have hle : (stripFactor 2 (n.log2 + 1) n).2 ≤ n :=
    Nat.le_of_dvd (Nat.pos_of_ne_zero hn) (Dvd.intro _ hodd)
  have hne : (stripFactor 2 (n.log2 + 1) n).2 ≠ 0 := by
    intro hzero
    rw [hzero, Nat.zero_mul] at hodd
    exact hn hodd.symm
  refine ⟨_, _, _, by rw [make, if_neg hn], ?_, ?_, ?_⟩
  · rw [hcore, hodd]
  · exact fun h2 => not_dvd_stripFactor (by decide) hn hlt (h2.trans (Dvd.intro _ hcore))
  · exact not_dvd_stripFactor (by decide) hne (by omega)

theorem value_make (negative : Bool) (n : Nat) (twos fives : Int) :
    (make negative n twos fives).value = signed negative n * 2 ^ twos * 5 ^ fives := by
  by_cases hn : n = 0
  · rw [make, if_pos hn, hn]
    simp [value, signed]
  · obtain ⟨a, b, core, hmake, hfactors, -, -⟩ := exists_make negative twos fives hn
    rw [hmake, hfactors, value, signed_mul, signed_mul, zpow_add₀ (by norm_num),
      zpow_add₀ (by norm_num), zpow_natCast, zpow_natCast]
    push_cast
    ring

theorem canonical_make (negative : Bool) (n : Nat) (twos fives : Int) :
    (make negative n twos fives).Canonical := by
  by_cases hn : n = 0
  · exact .inl (by rw [make, if_pos hn])
  · obtain ⟨a, b, core, hmake, -, h2, h5⟩ := exists_make negative twos fives hn
    rw [hmake]
    exact .inr ⟨h2, h5⟩

theorem signed_ne_zero (h : n ≠ 0) : signed negative n ≠ 0 := by
  have hn : (n : ℚ) ≠ 0 := Nat.cast_ne_zero.mpr h
  cases negative
  · exact hn
  · exact neg_ne_zero.mpr hn

theorem padicValRat_natCast (p : Nat) (h : ¬ p ∣ n) : padicValRat p (n : ℚ) = 0 := by
  rw [padicValRat.of_nat, padicValNat.eq_zero_of_not_dvd h, Nat.cast_zero]

theorem padicValRat_signed (p : Nat) (h : ¬ p ∣ n) : padicValRat p (signed negative n) = 0 := by
  cases negative
  · exact padicValRat_natCast p h
  · rw [signed, if_pos rfl, padicValRat.neg, padicValRat_natCast p h]

/-- The exponents of a form are the valuations of its number. -/
theorem padicValRat_value (h2 : ¬ 2 ∣ x.core) (h5 : ¬ 5 ∣ x.core) :
    padicValRat 2 x.value = x.twos ∧ padicValRat 5 x.value = x.fives := by
  have : Fact (Nat.Prime 2) := ⟨Nat.prime_two⟩
  have : Fact (Nat.Prime 5) := ⟨Nat.prime_five⟩
  have hcore : x.core ≠ 0 := fun h0 => h2 (h0 ▸ Nat.dvd_zero 2)
  have hsigned : signed x.negative x.core ≠ 0 := signed_ne_zero hcore
  have htwos : (2 : ℚ) ^ x.twos ≠ 0 := zpow_ne_zero _ (by norm_num)
  have hfives : (5 : ℚ) ^ x.fives ≠ 0 := zpow_ne_zero _ (by norm_num)
  have h25 : padicValRat 2 (5 : ℚ) = 0 := padicValRat_natCast 2 (n := 5) (by decide)
  have h52 : padicValRat 5 (2 : ℚ) = 0 := padicValRat_natCast 5 (n := 2) (by decide)
  have h22 : padicValRat 2 (2 : ℚ) = 1 := padicValRat.self (p := 2) (by decide)
  have h55 : padicValRat 5 (5 : ℚ) = 1 := padicValRat.self (p := 5) (by decide)
  constructor
  · rw [value, padicValRat.mul (mul_ne_zero hsigned htwos) hfives, padicValRat.mul hsigned htwos,
      padicValRat.zpow, padicValRat.zpow, padicValRat_signed 2 h2, h22, h25]
    omega
  · rw [value, padicValRat.mul (mul_ne_zero hsigned htwos) hfives, padicValRat.mul hsigned htwos,
      padicValRat.zpow, padicValRat.zpow, padicValRat_signed 5 h5, h52, h55]
    omega

theorem value_ne_zero (h : ¬ 2 ∣ x.core) : x.value ≠ 0 := by
  have hcore : x.core ≠ 0 := fun h0 => h (h0 ▸ Nat.dvd_zero 2)
  exact mul_ne_zero (mul_ne_zero (signed_ne_zero hcore) (zpow_ne_zero _ (by norm_num)))
    (zpow_ne_zero _ (by norm_num))

theorem signed_injective {other : Bool} {m : Nat} (hn : n ≠ 0)
    (h : signed negative n = signed other m) : negative = other ∧ n = m := by
  have hpos : (0 : ℚ) < n := Nat.cast_pos.mpr (Nat.pos_of_ne_zero hn)
  have hm : (0 : ℚ) ≤ m := Nat.cast_nonneg m
  cases negative <;> cases other <;>
    simp only [signed, Bool.false_eq_true, if_true, if_false, neg_inj, Nat.cast_inj] at h
  · exact ⟨rfl, h⟩
  · linarith
  · linarith
  · exact ⟨rfl, h⟩

theorem Canonical.eq_of_value_eq (hx : x.Canonical) (hy : y.Canonical) (h : x.value = y.value) :
    x = y := by
  have hzero : (⟨false, 0, 0, 0⟩ : Exact).value = 0 := by simp [value, signed]
  rcases hx with rfl | ⟨hx2, hx5⟩ <;> rcases hy with rfl | ⟨hy2, hy5⟩
  · rfl
  · exact absurd (h.symm.trans hzero) (value_ne_zero hy2)
  · exact absurd (h.trans hzero) (value_ne_zero hx2)
  · obtain ⟨hxtwos, hxfives⟩ := padicValRat_value hx2 hx5
    obtain ⟨hytwos, hyfives⟩ := padicValRat_value hy2 hy5
    have htwos : x.twos = y.twos := by rw [← hxtwos, h, hytwos]
    have hfives : x.fives = y.fives := by rw [← hxfives, h, hyfives]
    have hcore : x.core ≠ 0 := fun h0 => hx2 (h0 ▸ Nat.dvd_zero 2)
    have hsigned : signed x.negative x.core = signed y.negative y.core := by
      rw [value, value, htwos, hfives] at h
      exact mul_right_cancel₀ (zpow_ne_zero _ (by norm_num))
        (mul_right_cancel₀ (zpow_ne_zero _ (by norm_num)) h)
    obtain ⟨hsign, hcores⟩ := signed_injective hcore hsigned
    obtain ⟨xnegative, xcore, xtwos, xfives⟩ := x
    obtain ⟨ynegative, ycore, ytwos, yfives⟩ := y
    exact Exact.mk.injEq .. ▸ ⟨hsign, hcores, htwos, hfives⟩

end Exact

end Number

namespace Value

open Number

/-- The rational value of a finite number; the truth values count as zero and one. -/
def ratio? : Value → Option ℚ
  | .bool b => some (if b then 1 else 0)
  | .int n => some n
  | .float (.finite negative significand exponent) =>
    some (signed negative significand * 2 ^ exponent)
  | .decimal (.finite negative coefficient exponent) =>
    some (signed negative coefficient * 10 ^ exponent)
  | _ => none

variable {v w : Value} {p q : ℚ}

theorem signed_natAbs (n : Int) : signed (n < 0) n.natAbs = n := by
  by_cases hn : n < 0
  · have habs : ((n.natAbs : Int) : ℚ) = ((-n : Int) : ℚ) := by
      congr 1
      omega
    rw [signed, if_pos (decide_eq_true hn), ← Int.cast_natCast, habs, Int.cast_neg, neg_neg]
  · have habs : ((n.natAbs : Int) : ℚ) = (n : ℚ) := by
      congr 1
      omega
    rw [signed, if_neg (by simpa using hn), ← Int.cast_natCast, habs]

theorem value_ofInt (n : Int) : (Exact.ofInt n).value = n := by
  rw [Exact.ofInt, Exact.value_make, signed_natAbs]
  simp

/-- A number with a rational value is compared by the canonical form of this value. -/
theorem exists_exact (h : v.ratio? = some q) :
    ∃ x : Exact, v.quantity? = some (.exact x) ∧ x.Canonical ∧ x.value = q := by
  cases v with
  | bool b =>
    cases h
    refine ⟨_, rfl, Exact.canonical_make _ _ _ _, ?_⟩
    cases b <;> simp [value_ofInt]
  | int n =>
    cases h
    exact ⟨_, rfl, Exact.canonical_make _ _ _ _, value_ofInt n⟩
  | float x =>
    cases x with
    | finite negative significand exponent =>
      cases h
      refine ⟨_, rfl, Exact.canonical_make _ _ _ _, ?_⟩
      rw [Exact.value_make, zpow_zero, mul_one]
    | infinite | undefined => cases h
  | decimal d =>
    cases d with
    | finite negative coefficient exponent =>
      cases h
      refine ⟨_, rfl, Exact.canonical_make _ _ _ _, ?_⟩
      rw [Exact.value_make, mul_assoc, ← mul_zpow]
      norm_num
    | infinite | undefined => cases h
  | _ => cases h

theorem beq_iff_ratio_eq (hv : v.ratio? = some p) (hw : w.ratio? = some q) :
    (v == w) = true ↔ p = q := by
  obtain ⟨x, hx, hxc, rfl⟩ := exists_exact hv
  obtain ⟨y, hy, hyc, rfl⟩ := exists_exact hw
  rw [beq_eq_same, same_of_quantity hx, hy]
  constructor
  · intro h
    cases h
    rfl
  · intro h
    rw [hxc.eq_of_value_eq hyc h]

end Value

end ModelSchema
