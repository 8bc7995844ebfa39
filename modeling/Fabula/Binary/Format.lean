import Fabula.Text.Numeral

/-!
Binary floating-point formats. The magnitudes of a format, from zero up to infinity, are numbered
by their rank: the next larger magnitude has the next rank, so order is order of ranks. Rounding
answers the rank of the nearest magnitude of a ratio; halfway between two, the even rank.
-/

namespace Fabula.Binary

/-- The nearest whole number to `num / den`; of two equally near, the even one. -/
def roundQuotient (num den : Nat) : Nat :=
  let quotient := num / den
  let twice := 2 * (num % den)
  if twice < den then quotient
  else if den < twice then quotient + 1
  else quotient + quotient % 2

/-- The greatest `e` with `2 ^ e ≤ num / den`, for positive numbers. -/
def floorLog2 (num den : Nat) : Int :=
  let guess : Int := num.log2 - den.log2
  if num * twoTo (-guess).toNat < den * twoTo guess.toNat then guess - 1 else guess

structure Format where
  /-- Bits of a significand without its leading one. -/
  fractionBits : Nat
  /-- The exponent of the smallest positive magnitude. -/
  leastExponent : Int
  /-- The rank of infinity. -/
  infinity : Nat

namespace Format

def double : Format := ⟨52, -1074, 2047 * twoTo 52⟩

def single : Format := ⟨23, -149, 255 * twoTo 23⟩

/-- The magnitude of rank `rank` is `significand rank * 2 ^ exponent rank`. -/
def significand (f : Format) (rank : Nat) : Nat :=
  if rank < twoTo f.fractionBits then rank
  else twoTo f.fractionBits + rank % twoTo f.fractionBits

def exponent (f : Format) (rank : Nat) : Int :=
  if rank < twoTo f.fractionBits then f.leastExponent
  else f.leastExponent + Int.ofNat (rank / twoTo f.fractionBits) - 1

/-- The magnitude as a ratio. -/
def ratio (f : Format) (rank : Nat) : Nat × Nat :=
  (f.significand rank * twoTo (f.exponent rank).toNat, twoTo (-f.exponent rank).toNat)

/-- The rank of the magnitude nearest to `num / den`. -/
def round (f : Format) (num den : Nat) : Nat :=
  if num = 0 then 0
  else
    let unit := max (floorLog2 num den - Int.ofNat f.fractionBits) f.leastExponent
    let units := roundQuotient (num * twoTo (-unit).toNat) (den * twoTo unit.toNat)
    min ((unit - f.leastExponent).toNat * twoTo f.fractionBits + units) f.infinity

theorem round_le_infinity (f : Format) (num den : Nat) : f.round num den ≤ f.infinity := by
  unfold round
  split
  · exact Nat.zero_le _
  · exact Nat.min_le_right _ _

end Format

example : Format.double.round 1 10 = 0x3FB999999999999A := by decide +kernel

example : Format.single.round (twoTo 24 + 1) 1 = Format.single.round (twoTo 24) 1 := by decide +kernel

end Fabula.Binary
