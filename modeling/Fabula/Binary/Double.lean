import Fabula.Binary.Format

/-!
Double and single precision numbers. A double here is finite; a single may be infinite or not a
number. Two numbers are compared by their signed ranks, so the two zeros are the same number.
-/

namespace Fabula.Binary

/-- A finite double-precision number. -/
structure Double where
  negative : Bool
  rank : Nat
  finite : rank < 2047 * twoTo 52
deriving DecidableEq

namespace Double

/-- Rounds `num / den`; `none` when the result is not finite. -/
def ofRatio? (negative : Bool) (num den : Nat) : Option Double :=
  let rank := Format.double.round num den
  if h : rank < 2047 * twoTo 52 then some ⟨negative, rank, h⟩ else none

def zero (negative : Bool) : Double := ⟨negative, 0, by decide⟩

/-- The magnitude as a ratio. -/
def ratio (d : Double) : Nat × Nat := Format.double.ratio d.rank

/-- The place of the number in the order of all doubles, zero at zero. -/
def signedRank (d : Double) : Int :=
  if d.negative then -Int.ofNat d.rank else Int.ofNat d.rank

/-- Numeric equality. -/
def same (a b : Double) : Bool := a.signedRank == b.signedRank

end Double

/-- A single-precision number as it is interchanged: the ranks above that of infinity are not
numbers. -/
structure Single where
  negative : Bool
  rank : Nat
  bounded : rank < twoTo 31
deriving DecidableEq

namespace Single

theorem round_lt (num den : Nat) : Format.single.round num den < twoTo 31 :=
  Nat.lt_of_le_of_lt (Format.round_le_infinity ..) (by decide)

def ofRatio (negative : Bool) (num den : Nat) : Single :=
  ⟨negative, Format.single.round num den, round_lt num den⟩

def zero : Single := ⟨false, 0, by decide⟩

def infinity (negative : Bool) : Single := ⟨negative, 255 * twoTo 23, by decide⟩

def notANumber : Single := ⟨false, 255 * twoTo 23 + twoTo 22, by decide⟩

def ofInt (i : Int) : Single := ofRatio (i < 0) i.natAbs 1

def ofDouble (d : Double) : Single := ofRatio d.negative d.ratio.1 d.ratio.2

def isFinite (s : Single) : Bool := s.rank < Format.single.infinity

/-- The same number in double precision, when it is finite. -/
def toDouble? (s : Single) : Option Double :=
  if s.isFinite then
    let (num, den) := Format.single.ratio s.rank
    Double.ofRatio? s.negative num den
  else none

def signedRank (s : Single) : Int :=
  if s.negative then -Int.ofNat s.rank else Int.ofNat s.rank

/-- Numeric equality; what is not a number equals nothing. -/
def same (a b : Single) : Bool :=
  a.signedRank == b.signedRank && a.rank ≤ Format.single.infinity

/-- The interchange bit pattern: the sign above the rank. -/
def bits (s : Single) : Nat := (if s.negative then twoTo 31 else 0) + s.rank

end Single

end Fabula.Binary
