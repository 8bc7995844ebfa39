import Fabula.Binary.Shortest
import Fabula.Json.Basic

/-!
Numbers as JSON text. A double is written with the shortest digits that read back, positionally
from `1e-5` up to `1e16` and in scientific notation elsewhere. A number with a fraction or an
exponent is read in double arithmetic: its leading digits, as many as fit 64 bits, are rounded to
a double and then scaled by a power of ten.
-/

namespace Fabula.Binary

namespace Double

/-- The product; `none` when it is not finite. -/
def times? (a b : Double) : Option Double :=
  ofRatio? (a.negative != b.negative) (a.ratio.1 * b.ratio.1) (a.ratio.2 * b.ratio.2)

/-- The quotient by a positive power of ten; `none` when it is not finite. -/
def over? (a b : Double) : Option Double :=
  ofRatio? (a.negative != b.negative) (a.ratio.1 * b.ratio.2) (a.ratio.2 * b.ratio.1)

/-- `value * 10 ^ exponent`, in steps of at most `10 ^ 308`. -/
def scale? (value : Double) : Nat → Int → Option Double
  | 0, _ => some value
  | steps + 1, exponent =>
    if exponent.natAbs ≤ 308 then
      (ofRatio? false (tenTo exponent.natAbs) 1).bind fun power =>
        if 0 ≤ exponent then value.times? power else value.over? power
    else if value.rank = 0 then some value
    else if 0 ≤ exponent then none
    else
      (ofRatio? false (tenTo 308) 1).bind fun power =>
        (value.over? power).bind fun smaller => smaller.scale? steps (exponent + 308)

end Double

/-- Positional notation is used while the number is `0.d1d2... * 10 ^ point` with `point` in this
range; elsewhere the notation is scientific. -/
def positional (point : Int) : Bool := -5 < point && point ≤ 16

/-- The text of `0.d1d2... * 10 ^ point`. -/
def writeDigits (digits : List Char) (point : Int) : List Char :=
  let size := Int.ofNat digits.length
  if positional point then
    if point ≤ 0 then '0' :: '.' :: (List.replicate (-point).toNat '0' ++ digits)
    else if point < size then digits.take point.toNat ++ '.' :: digits.drop point.toNat
    else digits ++ List.replicate (point - size).toNat '0' ++ ['.', '0']
  else
    let fraction := match digits.drop 1 with
      | [] => []
      | rest => '.' :: rest
    let exponent := point - 1
    let sign := if 0 ≤ exponent then '+' else '-'
    digits.take 1 ++ fraction ++ 'e' :: sign :: Nat.toDigits 10 exponent.natAbs

def Double.write (d : Double) : List Char :=
  let magnitude :=
    if d.rank = 0 then ['0', '.', '0']
    else
      let (factor, exponent) := Format.double.shortest d.rank
      let digits := Nat.toDigits 10 factor
      writeDigits digits (Int.ofNat digits.length + exponent)
  if d.negative then '-' :: magnitude else magnitude

end Fabula.Binary

namespace Fabula.Json

open Binary (Double)

/-- Appends digits to `value` as long as the result fits 64 bits; answers the digits left. -/
def fitDigits (value : Nat) : List Char → Nat × List Char
  | [] => (value, [])
  | c :: rest =>
    let next := 10 * value + (c.toNat - '0'.toNat)
    if next < twoTo 64 then fitDigits next rest else (value, c :: rest)

/-- The value of a number from the parts of its text. A whole number that does not fit 64 bits is
a double, and so is a negative zero. -/
def ofNumeral? (negative : Bool) (whole : List Char) (fraction : Option (List Char))
    (exponent : Option Int) : Option Json :=
  let (leading, wholeLeft) := fitDigits 0 whole
  match fraction, exponent, wholeLeft with
  | none, none, [] =>
    if !negative then some (int leading)
    else if 0 < leading && leading ≤ twoTo 63 then some (int (-Int.ofNat leading))
    else (Double.ofRatio? true leading 1).map float
  | _, _, _ =>
    let digits := fraction.getD []
    let (significand, left) := fitDigits leading digits
    let used := Int.ofNat digits.length - Int.ofNat left.length
    let shift := Int.ofNat wholeLeft.length - used + exponent.getD 0
    ((Double.ofRatio? negative significand 1).bind fun value => value.scale? 3 shift).map float

end Fabula.Json
