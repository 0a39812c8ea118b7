import Mathlib.Algebra.Field.Rat
import Mathlib.Algebra.Order.Field.Rat
import Mathlib.Algebra.Order.Ring.Abs
import Mathlib.Data.Nat.Log
import Mathlib.Tactic.FieldSimp
import Mathlib.Tactic.Ring
import Rinfra.Lib.Double

/-!
# What a binary64 number stands for

The rational number of a mantissa and an exponent, the fields of the bits, and
which integers are numbers of the format: those of at most 53 bits, up to a
power of two.
-/

namespace Rinfra.Lib

def F64.value (x : F64) : ℚ := (if x.negative then -1 else 1) * x.mantissa * 2 ^ x.exponent

/-- A mantissa of 53 bits, or of less at the least exponent. -/
def F64.Canonical (x : F64) : Prop :=
  (x.mantissa < 2 ^ 52 ∧ x.exponent = -1074) ∨
    (2 ^ 52 ≤ x.mantissa ∧ x.mantissa < 2 ^ 53 ∧ -1074 ≤ x.exponent ∧ x.exponent ≤ 971)

def Double.ofBits (bits : UInt64) : Double :=
  let negative : Bool := 2 ^ 63 ≤ bits.toNat
  let exponent : Nat := bits.toNat / 2 ^ 52 % 2 ^ 11
  let fraction : Nat := bits.toNat % 2 ^ 52
  if exponent = 2047 then if fraction = 0 then .infinite negative else .nan
  else if exponent = 0 then .finite ⟨negative, fraction, -1074⟩
  else .finite ⟨negative, 2 ^ 52 + fraction, (exponent : Int) - 1075⟩

/-- The number has at most 53 bits before its trailing zeros. -/
def FitsMantissa (num : Nat) : Prop := ∃ m k, num = m * 2 ^ k ∧ m < 2 ^ 53

-- ---------------------------------------------------------------------------
-- The fields of the bits
-- ---------------------------------------------------------------------------

section
variable {x : F64}

theorem toNat_toBits_subnormal (hm : x.mantissa < 2 ^ 52) :
    x.toBits.toNat = signBit x.negative + x.mantissa := by
  have hsign : signBit x.negative ≤ 2 ^ 63 := by
    unfold signBit
    split <;> simp
  rw [F64.toBits, if_pos hm, UInt64.toNat_ofNat']
  exact Nat.mod_eq_of_lt (by omega)

theorem toNat_toBits_normal (hlow : 2 ^ 52 ≤ x.mantissa) (hhigh : x.mantissa < 2 ^ 53)
    (hmin : -1074 ≤ x.exponent) (hmax : x.exponent ≤ 971) :
    x.toBits.toNat = signBit x.negative +
      ((x.exponent + 1075).toNat * 2 ^ 52 + (x.mantissa - 2 ^ 52)) := by
  have hsign : signBit x.negative ≤ 2 ^ 63 := by
    unfold signBit
    split <;> simp
  have hexp : (x.exponent + 1075).toNat ≤ 2046 := by omega
  rw [F64.toBits, if_neg (by omega), UInt64.toNat_ofNat']
  exact Nat.mod_eq_of_lt (by omega)

theorem ofBits_toBits (h : x.Canonical) : Double.ofBits x.toBits = .finite x := by
  obtain ⟨negative, mantissa, exponent⟩ := x
  rcases h with ⟨hm, he⟩ | ⟨hlow, hhigh, hmin, hmax⟩
  · have hbits := toNat_toBits_subnormal (x := ⟨negative, mantissa, exponent⟩) hm
    simp only at hm he hbits
    subst he
    simp only [Double.ofBits, hbits]
    cases negative with
    | false =>
      simp only [signBit, Bool.false_eq_true, if_false, Nat.zero_add]
      rw [Nat.div_eq_of_lt hm, Nat.mod_eq_of_lt hm]
      simp
      omega
    | true =>
      simp only [signBit, if_true]
      have hdiv : (2 ^ 63 + mantissa) / 2 ^ 52 % 2 ^ 11 = 0 := by omega
      have hmod : (2 ^ 63 + mantissa) % 2 ^ 52 = mantissa := by omega
      rw [hdiv, hmod]
      simp
  · have hbits := toNat_toBits_normal (x := ⟨negative, mantissa, exponent⟩) hlow hhigh hmin hmax
    simp only at hlow hhigh hmin hmax hbits
    obtain ⟨biased, hbiased⟩ := Int.eq_ofNat_of_zero_le (a := exponent + 1075) (by omega)
    have hexp : exponent = biased - 1075 := by omega
    rw [hbiased, Int.toNat_natCast] at hbits
    have hdiv : (signBit negative + (biased * 2 ^ 52 + (mantissa - 2 ^ 52))) / 2 ^ 52 % 2 ^ 11 =
        biased := by
      unfold signBit
      split <;> omega
    have hmod : (signBit negative + (biased * 2 ^ 52 + (mantissa - 2 ^ 52))) % 2 ^ 52 =
        mantissa - 2 ^ 52 := by
      unfold signBit
      split <;> omega
    have hsign : decide (2 ^ 63 ≤ signBit negative + (biased * 2 ^ 52 + (mantissa - 2 ^ 52))) =
        negative := by
      cases negative with
      | false =>
        simp only [signBit, Bool.false_eq_true, if_false, decide_eq_false_iff_not]
        omega
      | true =>
        simp only [signBit, if_true, decide_eq_true_eq]
        omega
    have hmantissa : 2 ^ 52 + (mantissa - 2 ^ 52) = mantissa := Nat.add_sub_cancel' hlow
    simp only [Double.ofBits, hbits, hdiv, hmod, hsign, hmantissa]
    rw [if_neg (by omega), if_neg (by omega), hexp]

end

-- ---------------------------------------------------------------------------
-- Rounding
-- ---------------------------------------------------------------------------

section
variable {num den : Nat}

theorem roundHalfEven_cases (num den : Nat) :
    roundHalfEven num den = num / den ∧ 2 * (num % den) ≤ den ∨
      roundHalfEven num den = num / den + 1 ∧ den ≤ 2 * (num % den) := by
  unfold roundHalfEven
  simp only
  split
  · exact .inl ⟨rfl, by omega⟩
  · split
    · exact .inr ⟨rfl, by omega⟩
    · split
      · exact .inl ⟨rfl, by omega⟩
      · exact .inr ⟨rfl, by omega⟩

/-- Rounding is exact where there is nothing to round. -/
theorem roundHalfEven_exact_iff (hden : 0 < den) :
    roundHalfEven num den * den = num ↔ den ∣ num := by
  have hdiv := Nat.div_add_mod num den
  have hlt := Nat.mod_lt num hden
  constructor
  · exact fun h => ⟨roundHalfEven num den, by rw [Nat.mul_comm, h]⟩
  · intro h
    have hmod : num % den = 0 := Nat.mod_eq_zero_of_dvd h
    rcases roundHalfEven_cases num den with ⟨hround, -⟩ | ⟨-, hhalf⟩
    · rw [hround]
      exact Nat.div_mul_cancel h
    · omega

theorem le_roundHalfEven (h : low ≤ num / den) : low ≤ roundHalfEven num den := by
  rcases roundHalfEven_cases num den with ⟨hround, -⟩ | ⟨hround, -⟩ <;> omega

theorem roundHalfEven_le (h : num / den < high) : roundHalfEven num den ≤ high := by
  rcases roundHalfEven_cases num den with ⟨hround, -⟩ | ⟨hround, -⟩ <;> omega

end

-- ---------------------------------------------------------------------------
-- Natural numbers and integers
-- ---------------------------------------------------------------------------

section
variable {num : Nat} {negative : Bool}

/-- The exponent of the last bit that a number of the format keeps. -/
def lastBit (num : Nat) : Int := (num.log2 : Int) - 52

def rounded (num : Nat) : Nat :=
  roundHalfEven (num * 2 ^ (-lastBit num).toNat) (2 ^ (lastBit num).toNat)

theorem scaled_bounds (hpos : 0 < num) :
    2 ^ 52 ≤ num * 2 ^ (-lastBit num).toNat / 2 ^ (lastBit num).toNat ∧
      num * 2 ^ (-lastBit num).toNat / 2 ^ (lastBit num).toNat < 2 ^ 53 := by
  have hlow : 2 ^ num.log2 ≤ num := Nat.log2_self_le (Nat.pos_iff_ne_zero.mp hpos)
  have hhigh : num < 2 ^ (num.log2 + 1) := Nat.lt_log2_self
  have hpow : 2 ^ num.log2 * 2 ^ (-lastBit num).toNat = 2 ^ 52 * 2 ^ (lastBit num).toNat := by
    rw [← Nat.pow_add, ← Nat.pow_add]
    congr 1
    simp only [lastBit]
    omega
  have hunit : 0 < 2 ^ (lastBit num).toNat := Nat.two_pow_pos _
  constructor
  · rw [Nat.le_div_iff_mul_le hunit, ← hpow]
    exact Nat.mul_le_mul_right _ hlow
  · rw [Nat.div_lt_iff_lt_mul hunit]
    calc num * 2 ^ (-lastBit num).toNat
        < 2 ^ (num.log2 + 1) * 2 ^ (-lastBit num).toNat :=
          Nat.mul_lt_mul_of_pos_right hhigh (Nat.two_pow_pos _)
      _ = 2 * (2 ^ num.log2 * 2 ^ (-lastBit num).toNat) := by ring
      _ = 2 ^ 53 * 2 ^ (lastBit num).toNat := by rw [hpow]; ring

theorem ofRatio_nat (hpos : 0 < num) (hlog : num.log2 < 1023) :
    F64.ofRatio negative num 1 = some (if rounded num = 2 ^ 53 then
      ⟨negative, 2 ^ 52, lastBit num + 1⟩ else ⟨negative, rounded num, lastBit num⟩) := by
  have hone : Nat.log2 1 = 0 := by decide
  have hguess : (num.log2 : Int) - (Nat.log2 1 : Nat) - 52 = lastBit num := by
    rw [lastBit, hone]
    simp
  have hmin : ¬ lastBit num < -1074 := by
    rw [lastBit]
    omega
  have hmax : ¬ 971 < lastBit num + 1 := by
    rw [lastBit]
    omega
  obtain ⟨hlow, -⟩ := scaled_bounds hpos
  simp only [F64.ofRatio, if_neg (Nat.pos_iff_ne_zero.mp hpos), hguess, Nat.one_mul,
    if_neg (Nat.not_lt.mpr hlow), if_neg hmin]
  rw [if_neg]
  · rfl
  · split
    · exact hmax
    · simp only
      omega

theorem rounded_bounds (hpos : 0 < num) : 2 ^ 52 ≤ rounded num ∧ rounded num ≤ 2 ^ 53 := by
  obtain ⟨hlow, hhigh⟩ := scaled_bounds hpos
  exact ⟨le_roundHalfEven hlow, roundHalfEven_le hhigh⟩

/-- Nothing is lost of a number if and only if it fits into a mantissa. -/
theorem rounded_exact_iff (hpos : 0 < num) :
    rounded num * 2 ^ (lastBit num).toNat = num * 2 ^ (-lastBit num).toNat ↔
      FitsMantissa num := by
  have hhigh : num < 2 ^ (num.log2 + 1) := Nat.lt_log2_self
  have hlow : 2 ^ num.log2 ≤ num := Nat.log2_self_le (Nat.pos_iff_ne_zero.mp hpos)
  rw [rounded, roundHalfEven_exact_iff (Nat.two_pow_pos _)]
  by_cases hsmall : num.log2 ≤ 52
  · have hunit : (lastBit num).toNat = 0 := by
      rw [lastBit]
      omega
    rw [hunit]
    refine iff_of_true (one_dvd _) ⟨num, 0, (Nat.mul_one num).symm, hhigh.trans_le ?_⟩
    exact Nat.pow_le_pow_right Nat.two_pos (by omega)
  · have hscale : (-lastBit num).toNat = 0 := by
      rw [lastBit]
      omega
    have hunit : (lastBit num).toNat = num.log2 - 52 := by
      rw [lastBit]
      omega
    rw [hscale, hunit, Nat.pow_zero, Nat.mul_one]
    constructor
    · rintro ⟨m, hm⟩
      refine ⟨m, num.log2 - 52, by rw [Nat.mul_comm, ← hm], ?_⟩
      by_contra hbig
      have hexp : 2 ^ (num.log2 + 1) = 2 ^ (num.log2 - 52) * 2 ^ 53 := by
        rw [← Nat.pow_add]
        congr 1
        omega
      have hle : 2 ^ (num.log2 - 52) * 2 ^ 53 ≤ 2 ^ (num.log2 - 52) * m :=
        Nat.mul_le_mul_left _ (Nat.not_lt.mp hbig)
      omega
    · rintro ⟨m, k, hnum, hm⟩
      -- fewer trailing zeros would make the number too small
      have hk : num.log2 - 52 ≤ k := by
        by_contra hless
        have hpow : m * 2 ^ k < 2 ^ 53 * 2 ^ k := Nat.mul_lt_mul_of_pos_right hm (Nat.two_pow_pos k)
        rw [← Nat.pow_add, ← hnum] at hpow
        have hle : 2 ^ (53 + k) ≤ 2 ^ num.log2 := Nat.pow_le_pow_right Nat.two_pos (by omega)
        omega
      have hdvd : 2 ^ (num.log2 - 52) ∣ m * 2 ^ k := Dvd.dvd.mul_left (Nat.pow_dvd_pow 2 hk) m
      rwa [← hnum] at hdvd

theorem exists_ofRatio_nat (negative : Bool) (hpos : 0 < num) (hlog : num.log2 < 1023) :
    ∃ x, F64.ofRatio negative num 1 = some x ∧ x.Canonical ∧
      (x.value = (if negative then -1 else 1) * num ↔ FitsMantissa num) := by
  obtain ⟨hlow, hhigh⟩ := rounded_bounds hpos
  have hvalue : ∀ x : F64, x.negative = negative →
      (x.mantissa : ℚ) * 2 ^ x.exponent = rounded num * 2 ^ lastBit num →
      (x.value = (if negative then -1 else 1) * num ↔ FitsMantissa num) := by
    intro x hneg hx
    have hsign : (if negative then (-1 : ℚ) else 1) ≠ 0 := by
      split <;> norm_num
    have hscale : (2 : ℚ) ^ lastBit num * 2 ^ (-lastBit num).toNat = 2 ^ (lastBit num).toNat := by
      rw [← zpow_natCast, ← zpow_natCast, ← zpow_add₀ (by norm_num)]
      congr 1
      omega
    have hpow : (2 : ℚ) ^ (-lastBit num).toNat ≠ 0 := pow_ne_zero _ (by norm_num)
    rw [F64.value, hneg, mul_assoc, hx, mul_right_inj' hsign, ← rounded_exact_iff hpos,
      ← Nat.cast_inj (R := ℚ), ← mul_left_inj' hpow, mul_assoc, hscale]
    push_cast
    rfl
  rw [ofRatio_nat hpos hlog]
  refine ⟨_, rfl, ?_⟩
  split
  · rename_i hcarry
    refine ⟨.inr ⟨le_refl _, Nat.pow_lt_pow_right (by decide) (by decide), ?_, ?_⟩,
      hvalue _ rfl ?_⟩
    · simp only [lastBit]
      omega
    · simp only [lastBit]
      omega
    · rw [hcarry]
      simp only
      rw [zpow_add₀ (by norm_num)]
      norm_num
      ring
  · rename_i hcarry
    refine ⟨.inr ⟨hlow, Nat.lt_of_le_of_ne hhigh hcarry, ?_, ?_⟩, hvalue _ rfl rfl⟩
    · simp only [lastBit]
      omega
    · simp only [lastBit]
      omega

end

theorem ofBits_ofInt (n : Int) (hlog : n.natAbs.log2 < 1023) :
    ∃ x : F64, Double.ofBits (Double.ofInt n).toBits = .finite x ∧
      (x.value = n ↔ FitsMantissa n.natAbs) := by
  by_cases hzero : n = 0
  · subst hzero
    refine ⟨⟨false, 0, -1074⟩, by decide, ?_⟩
    exact iff_of_true (by simp [F64.value]) ⟨0, 0, rfl, by decide⟩
  · obtain ⟨x, hx, hcanonical, hvalue⟩ := exists_ofRatio_nat (decide (n < 0))
      (Int.natAbs_pos.mpr hzero) hlog
    have hofInt : Double.ofInt n = .finite x := by
      simp only [Double.ofInt, Double.ofRatio, hx]
    refine ⟨x, by rw [hofInt]; exact ofBits_toBits hcanonical, ?_⟩
    rw [← hvalue]
    have hsigned : (if decide (n < 0) = true then (-1 : ℚ) else 1) * n.natAbs = n := by
      rw [Nat.cast_natAbs, Int.cast_abs]
      simp only [decide_eq_true_eq]
      split
      · rename_i hneg
        rw [abs_of_neg (Int.cast_lt_zero.mpr hneg), neg_one_mul, neg_neg]
      · rename_i hnot
        rw [abs_of_nonneg (Int.cast_nonneg (Int.not_lt.mp hnot)), one_mul]
    rw [hsigned]

end Rinfra.Lib
