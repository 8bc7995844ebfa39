import Fabula.Binary.Double

/-!
The shortest decimal that reads back. Of all decimals inside the interval of reals that round to a
number, `shortest` takes one on the coarsest decimal grid, and of two there the nearer.
-/

namespace Fabula.Binary

/-- The interval of a magnitude, in quarters of its last place: its two ends and the magnitude
itself. The lower half is narrower where a binade begins. -/
structure Interval where
  low : Nat
  mid : Nat
  high : Nat
  /-- Whether the ends themselves round to the magnitude. -/
  closed : Bool
  /-- The exponent of a quarter. -/
  exponent : Int

def Format.interval (f : Format) (rank : Nat) : Interval :=
  let m := f.significand rank
  let narrow := m = twoTo f.fractionBits && f.leastExponent < f.exponent rank
  { low := 4 * m - (if narrow then 1 else 2)
    mid := 4 * m
    high := 4 * m + 2
    closed := m % 2 == 0
    exponent := f.exponent rank - 2 }

/-- The multiple of `10 ^ grid` in the interval that is nearest to its middle, as a factor. -/
def Interval.pointOn? (i : Interval) (grid : Int) : Option Nat :=
  let scale := twoTo i.exponent.toNat * tenTo (-grid).toNat
  let step := twoTo (-i.exponent).toNat * tenTo grid.toNat
  let inside (factor : Nat) : Bool :=
    if i.closed then i.low * scale ≤ factor * step && factor * step ≤ i.high * scale
    else i.low * scale < factor * step && factor * step < i.high * scale
  let below := i.mid * scale / step
  let above := below + 1
  match inside below, inside above with
  | true, true =>
    let down := i.mid * scale - below * step
    let up := above * step - i.mid * scale
    some (if down < up then below else if up < down then above else below + below % 2)
  | true, false => some below
  | false, true => some above
  | false, false => none

/-- Tries grids ever finer from `10 ^ grid` on. -/
def Interval.search (i : Interval) : Nat → Int → Nat × Int
  | 0, grid => (0, grid)
  | tries + 1, grid =>
    match i.pointOn? grid with
    | some factor => (factor, grid)
    | none => i.search tries (grid - 1)

/-- Digits `d` and exponent `e` of the shortest decimal `d * 10 ^ e` for a magnitude that is
positive and finite. -/
def Format.shortest (f : Format) (rank : Nat) : Nat × Int :=
  let magnitude := Int.ofNat (f.significand rank).log2 + f.exponent rank
  (f.interval rank).search 30 (Int.fdiv (magnitude * 30103) 100000 + 2)

example : Format.double.shortest (Format.double.round 1 10) = (1, -1) := by decide +kernel

example : Format.double.shortest 1 = (5, -324) := by decide +kernel

end Fabula.Binary
