import Mathlib.Algebra.Order.Field.Power
import Mathlib.Algebra.Order.Ring.Rat
import Mathlib.Data.Rat.Cast.Order
import Mathlib.Tactic.FieldSimp
import Mathlib.Tactic.Linarith
import Mathlib.Tactic.NormNum
import Mathlib.Tactic.Positivity
import Mathlib.Tactic.Ring
import Fabula.Binary.Literal

/-!
# Where doubles end

A ratio and a decimal have no double if and only if they reach the number halfway between the
largest double and the next power of two: that number itself is rounded up, to the even side, and
everything below it is rounded to a finite double.
-/

namespace Fabula.Binary

/-- Halfway between the largest double and the next power of two. -/
def Double.limit : ℚ := 2 ^ 1024 - 2 ^ 970

/-- A ratio in units of `2 ^ unit`, rounded to a whole number of them. -/
def countUnits (num den : Nat) (unit : Int) : Nat :=
  roundQuotient (num * twoTo (-unit).toNat) (den * twoTo unit.toNat)

section
variable {num den k : Nat}

theorem twoTo_pos (n : Nat) : 0 < twoTo n := Nat.pow_pos (by decide)

theorem tenTo_pos (n : Nat) : 0 < tenTo n := Nat.pow_pos (by decide)

theorem pow_toNat_div (b : Nat) (e : Int) :
    ((b ^ e.toNat : Nat) : ℚ) / ((b ^ (-e).toNat : Nat) : ℚ) = (b : ℚ) ^ e := by
  obtain ⟨n, rfl | rfl⟩ := e.eq_nat_or_neg <;> simp

theorem twoTo_div_twoTo (e : Int) : (twoTo e.toNat : ℚ) / twoTo (-e).toNat = 2 ^ e :=
  pow_toNat_div 2 e

theorem tenTo_div_tenTo (e : Int) : (tenTo e.toNat : ℚ) / tenTo (-e).toNat = 10 ^ e :=
  pow_toNat_div 10 e

theorem scaled_eq (num den : Nat) (e : Int) :
    ((num * twoTo (-e).toNat : Nat) : ℚ) / ((den * twoTo e.toNat : Nat) : ℚ) =
      (num : ℚ) / den / 2 ^ e := by
  have hdown : (0 : ℚ) < twoTo (-e).toNat := by exact_mod_cast twoTo_pos _
  have hup : (0 : ℚ) < twoTo e.toNat := by exact_mod_cast twoTo_pos _
  rw [← twoTo_div_twoTo]
  push_cast
  field_simp

theorem scaled_lt_iff (hden : 0 < den) (e : Int) :
    num * twoTo (-e).toNat < den * twoTo e.toNat ↔ (num : ℚ) / den < 2 ^ e := by
  have hpos : (0 : ℚ) < ((den * twoTo e.toNat : Nat) : ℚ) := by
    exact_mod_cast Nat.mul_pos hden (twoTo_pos _)
  rw [← Nat.cast_lt (α := ℚ), ← div_lt_one hpos, scaled_eq, div_lt_one (by positivity)]

theorem log2_bounds (h : num ≠ 0) :
    (2 : ℚ) ^ (num.log2 : Int) ≤ num ∧ (num : ℚ) < 2 ^ ((num.log2 : Int) + 1) := by
  constructor
  · rw [zpow_natCast]
    exact_mod_cast Nat.log2_self_le h
  · rw [← Nat.cast_succ, zpow_natCast]
    exact_mod_cast Nat.lt_log2_self

theorem floorLog2_bounds (hnum : num ≠ 0) (hden : 0 < den) :
    (2 : ℚ) ^ floorLog2 num den ≤ (num : ℚ) / den ∧
      (num : ℚ) / den < 2 ^ (floorLog2 num den + 1) := by
  have hpos : (0 : ℚ) < den := by exact_mod_cast hden
  have htwo : (2 : ℚ) ≠ 0 := by norm_num
  obtain ⟨hnumLow, hnumHigh⟩ := log2_bounds hnum
  obtain ⟨hdenLow, hdenHigh⟩ := log2_bounds hden.ne'
  have hlow : (2 : ℚ) ^ ((num.log2 : Int) - den.log2 - 1) ≤ (num : ℚ) / den := by
    rw [le_div_iff₀ hpos]
    calc (2 : ℚ) ^ ((num.log2 : Int) - den.log2 - 1) * den
        ≤ 2 ^ ((num.log2 : Int) - den.log2 - 1) * 2 ^ ((den.log2 : Int) + 1) := by gcongr
      _ = 2 ^ (num.log2 : Int) := by rw [← zpow_add₀ htwo]; congr 1; ring
      _ ≤ num := hnumLow
  have hhigh : (num : ℚ) / den < 2 ^ ((num.log2 : Int) - den.log2 + 1) := by
    rw [div_lt_iff₀ hpos]
    calc (num : ℚ) < 2 ^ ((num.log2 : Int) + 1) := hnumHigh
      _ = 2 ^ ((num.log2 : Int) - den.log2 + 1) * 2 ^ (den.log2 : Int) := by
          rw [← zpow_add₀ htwo]; congr 1; ring
      _ ≤ 2 ^ ((num.log2 : Int) - den.log2 + 1) * den := by gcongr
  unfold floorLog2
  dsimp only
  split
  · rename_i hless
    rw [scaled_lt_iff hden] at hless
    exact ⟨hlow, by rwa [sub_add_cancel]⟩
  · rename_i hless
    rw [scaled_lt_iff hden, not_lt] at hless
    exact ⟨hless, hhigh⟩

/-- Rounding reaches an even number from half a unit below it on. -/
theorem le_roundQuotient_iff (hden : 0 < den) (hk : k % 2 = 0) :
    k ≤ roundQuotient num den ↔ 2 * k * den ≤ 2 * num + den := by
  have hsplit : den * (num / den) + num % den = num := Nat.div_add_mod num den
  have hrest : num % den < den := Nat.mod_lt num hden
  unfold roundQuotient
  dsimp only
  generalize num / den = quotient at *
  generalize num % den = rest at *
  rcases Nat.lt_trichotomy (quotient + 1) k with h | h | h
  · have hbelow : (quotient + 2) * den ≤ k * den := Nat.mul_le_mul_right den h
    have hnot : ¬ 2 * k * den ≤ 2 * num + den := by nlinarith
    simp only [hnot, iff_false]
    split_ifs <;> omega
  · subst h
    have hhalf : 2 * (quotient + 1) * den ≤ 2 * num + den ↔ den ≤ 2 * rest := by
      constructor <;> intro _ <;> nlinarith
    rw [hhalf]
    split_ifs <;> omega
  · have habove : k * den ≤ quotient * den := Nat.mul_le_mul_right den (by omega)
    have hreached : 2 * k * den ≤ 2 * num + den := by nlinarith
    simp only [hreached, iff_true]
    split_ifs <;> omega

theorem roundQuotient_le (h : num < k * den) : roundQuotient num den ≤ k := by
  have hlt : num / den < k := Nat.div_lt_of_lt_mul (by rwa [Nat.mul_comm])
  unfold roundQuotient
  dsimp only
  split_ifs <;> omega

theorem le_countUnits_iff (hden : 0 < den) (hk : k % 2 = 0) (unit : Int) :
    k ≤ countUnits num den unit ↔ ((k : ℚ) - 1 / 2) * 2 ^ unit ≤ (num : ℚ) / den := by
  have hpos : 0 < den * twoTo unit.toNat := Nat.mul_pos hden (twoTo_pos _)
  have hcast : (0 : ℚ) < ((den * twoTo unit.toNat : Nat) : ℚ) := by exact_mod_cast hpos
  rw [countUnits, le_roundQuotient_iff hpos hk, ← le_div_iff₀ (by positivity), ← scaled_eq,
    le_div_iff₀ hcast, ← Nat.cast_le (α := ℚ), Nat.cast_add, Nat.cast_mul, Nat.cast_mul,
    Nat.cast_mul]
  constructor <;> intro _ <;> push_cast at * <;> linarith

theorem countUnits_le (hden : 0 < den) {unit : Int} (h : (num : ℚ) / den < k * 2 ^ unit) :
    countUnits num den unit ≤ k := by
  have hpos : (0 : ℚ) < ((den * twoTo unit.toNat : Nat) : ℚ) := by
    exact_mod_cast Nat.mul_pos hden (twoTo_pos _)
  rw [← div_lt_iff₀ (by positivity), ← scaled_eq, div_lt_iff₀ hpos] at h
  exact roundQuotient_le (by exact_mod_cast h)

namespace Double

theorem limit_eq : limit = (2 ^ 53 - 1 / 2) * 2 ^ (971 : Int) := by
  have hpower : (2 : ℚ) ^ 1024 = 2 ^ 54 * 2 ^ 970 := by rw [← pow_add]
  have hunit : (2 : ℚ) ^ (971 : Int) = 2 * 2 ^ 970 := by rw [← pow_succ']; rfl
  rw [limit, hpower, hunit]
  generalize (2 : ℚ) ^ 970 = half
  ring

theorem limit_le : limit ≤ 2 ^ (1024 : Int) := sub_le_self _ (by positivity)

theorem lt_limit : 2 ^ (1023 : Int) < limit := by
  have hpower : (2 : ℚ) ^ (1023 : Int) = 2 ^ 52 * 2 ^ (971 : Int) := by
    rw [← zpow_natCast, ← zpow_add₀ (by norm_num)]
    norm_num
  rw [limit_eq, hpower]
  gcongr
  norm_num

theorem limit_pos : 0 < limit := lt_trans (by positivity) lt_limit

theorem infinity_le_round_iff (hden : 0 < den) :
    Format.double.infinity ≤ Format.double.round num den ↔ limit ≤ (num : ℚ) / den := by
  have hinf : Format.double.infinity = 2047 * 2 ^ 52 := rfl
  have hbits : Format.double.fractionBits = 52 := rfl
  have hleast : Format.double.leastExponent = -1074 := rfl
  have htwo : (1 : ℚ) ≤ 2 := by norm_num
  by_cases hnum : num = 0
  · subst hnum
    simp [Format.round, hinf, not_le.mpr limit_pos]
  obtain ⟨hlow, hhigh⟩ := floorLog2_bounds hnum hden
  have hround : Format.double.infinity ≤ Format.double.round num den ↔
      2047 * 2 ^ 52 ≤ (max (floorLog2 num den - 52) (-1074) + 1074).toNat * 2 ^ 52 +
        countUnits num den (max (floorLog2 num den - 52) (-1074)) := by
    rw [Format.round, if_neg hnum]
    simp only [hinf, hbits, hleast, Int.ofNat_eq_natCast, Nat.cast_ofNat, sub_neg_eq_add,
      countUnits, le_min_iff, le_refl, and_true]
    rfl
  rw [hround]
  generalize floorLog2 num den = place at *
  -- only in the last binade below the limit does rounding decide
  rcases lt_trichotomy place 1023 with hplace | rfl | hplace
  · have hsmall : (num : ℚ) / den < limit := by
      calc (num : ℚ) / den < 2 ^ (place + 1) := hhigh
        _ ≤ 2 ^ (1023 : Int) := zpow_le_zpow_right₀ htwo (by omega)
        _ < limit := lt_limit
    have hunits : countUnits num den (max (place - 52) (-1074)) ≤ 2 ^ 53 := by
      refine countUnits_le hden (hhigh.trans_le ?_)
      rw [Nat.cast_pow, Nat.cast_ofNat, ← zpow_natCast, ← zpow_add₀ (by norm_num)]
      exact zpow_le_zpow_right₀ htwo (by omega)
    have hle : (max (place - 52) (-1074) + 1074).toNat ≤ 2044 := by omega
    simp only [not_le.mpr hsmall, iff_false]
    omega
  · have hunit : max (1023 - 52) (-1074) = (971 : Int) := rfl
    have hcount : 2 ^ 53 ≤ countUnits num den 971 ↔ _ :=
      le_countUnits_iff hden (by norm_num) 971
    rw [Nat.cast_pow, Nat.cast_ofNat, ← limit_eq] at hcount
    rw [hunit, ← hcount]
    constructor <;> intro _ <;> omega
  · have hlarge : limit ≤ (num : ℚ) / den := by
      calc limit ≤ 2 ^ (1024 : Int) := limit_le
        _ ≤ 2 ^ place := zpow_le_zpow_right₀ htwo (by omega)
        _ ≤ (num : ℚ) / den := hlow
    have hunit : max (place - 52) (-1074) = place - 52 := by omega
    have hunits : 2 ^ 52 ≤ countUnits num den (place - 52) := by
      rw [le_countUnits_iff hden (by norm_num)]
      calc (((2 ^ 52 : Nat) : ℚ) - 1 / 2) * 2 ^ (place - 52)
          ≤ 2 ^ (52 : Int) * 2 ^ (place - 52) := by
            gcongr
            norm_num
        _ = 2 ^ place := by rw [← zpow_add₀ (by norm_num)]; congr 1; omega
        _ ≤ (num : ℚ) / den := hlow
    have hle : 2046 ≤ (place - 52 + 1074).toNat := by omega
    simp only [hlarge, iff_true]
    rw [hunit]
    omega

theorem ofRatio?_eq_none_iff (hden : 0 < den) (negative : Bool) :
    ofRatio? negative num den = none ↔ limit ≤ (num : ℚ) / den := by
  have hinf : Format.double.infinity = 2047 * twoTo 52 := rfl
  rw [← infinity_le_round_iff hden, hinf, ofRatio?]
  split
  · rename_i hfinite
    simpa using hfinite
  · rename_i hfinite
    simpa using hfinite

theorem eight_zpow (exponent : Int) : (8 : ℚ) ^ exponent = 2 ^ (3 * exponent) := by
  rw [zpow_mul]
  norm_num

theorem eight_zpow_le {exponent : Int} (h : 0 ≤ exponent) :
    (8 : ℚ) ^ exponent ≤ 10 ^ exponent := by
  lift exponent to Nat using h
  rw [zpow_natCast, zpow_natCast]
  gcongr
  norm_num

theorem le_eight_zpow {exponent : Int} (h : exponent ≤ 0) :
    (10 : ℚ) ^ exponent ≤ 8 ^ exponent := by
  have hinv : (8 : ℚ) ^ (-exponent) ≤ 10 ^ (-exponent) := eight_zpow_le (by omega)
  rw [zpow_neg, zpow_neg] at hinv
  exact (inv_le_inv₀ (by positivity) (by positivity)).mp hinv

theorem limit_le_of_bits {digits : Nat} {exponent : Int} (hdigits : digits ≠ 0)
    (hexponent : 0 ≤ exponent) (hbits : 1100 < (digits.log2 : Int) + 3 * exponent) :
    limit ≤ (digits : ℚ) * 10 ^ exponent := by
  calc limit ≤ 2 ^ (1024 : Int) := limit_le
    _ ≤ 2 ^ ((digits.log2 : Int) + 3 * exponent) :=
        zpow_le_zpow_right₀ (by norm_num) (by omega)
    _ = 2 ^ (digits.log2 : Int) * 8 ^ exponent := by rw [zpow_add₀ (by norm_num), eight_zpow]
    _ ≤ digits * 10 ^ exponent := by
        gcongr
        · exact (log2_bounds hdigits).1
        · exact eight_zpow_le hexponent

theorem lt_limit_of_bits {digits : Nat} {exponent : Int} (hdigits : digits ≠ 0)
    (hexponent : exponent ≤ 0) (hbits : (digits.log2 : Int) + 3 * exponent < -1200) :
    (digits : ℚ) * 10 ^ exponent < limit := by
  calc (digits : ℚ) * 10 ^ exponent ≤ 2 ^ ((digits.log2 : Int) + 1) * 8 ^ exponent := by
        gcongr
        · exact (log2_bounds hdigits).2.le
        · exact le_eight_zpow hexponent
    _ = 2 ^ ((digits.log2 : Int) + 1 + 3 * exponent) := by
        rw [eight_zpow, ← zpow_add₀ (by norm_num)]
    _ ≤ 2 ^ (1023 : Int) := zpow_le_zpow_right₀ (by norm_num) (by omega)
    _ < limit := lt_limit

/-- A decimal has no double exactly if it reaches the limit. -/
theorem ofDecimal?_eq_none_iff {negative : Bool} {digits : Nat} {exponent : Int} :
    ofDecimal? negative digits exponent = none ↔ limit ≤ (digits : ℚ) * 10 ^ exponent := by
  unfold ofDecimal?
  simp only [Int.ofNat_eq_natCast, Bool.and_eq_true, decide_eq_true_eq]
  split_ifs with hzero hlarge hsmall
  · simp [hzero, limit_pos]
  · simp [limit_le_of_bits hzero hlarge.1.le hlarge.2]
  · simp [lt_limit_of_bits hzero hsmall.1.le hsmall.2]
  · have hvalue : ((digits * tenTo exponent.toNat : Nat) : ℚ) / (tenTo (-exponent).toNat : Nat) =
        digits * 10 ^ exponent := by
      rw [Nat.cast_mul, mul_div_assoc, tenTo_div_tenTo]
    rw [ofRatio?_eq_none_iff (tenTo_pos _), hvalue]

end Double

end

end Fabula.Binary
