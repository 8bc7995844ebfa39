import Fabula.Binary.Double
import Fabula.Text.Numeral

/-!
Written decimals. A literal is an optional sign and then a number with at most one point and an
optional exponent, or one of the words for infinity and not-a-number. A finite literal is read as
the double nearest to it.
-/

namespace Fabula.Binary

/-- The double nearest to `digits * 10 ^ exponent`; `none` when that is infinite. Exponents far
outside the range are decided by the bit length alone. -/
def Double.ofDecimal? (negative : Bool) (digits : Nat) (exponent : Int) : Option Double :=
  let bits := Int.ofNat digits.log2 + 3 * exponent
  if digits = 0 then some (zero negative)
  else if 0 < exponent && 1100 < bits then none
  else if exponent < 0 && bits < -1200 then some (zero negative)
  else ofRatio? negative (digits * tenTo exponent.toNat) (tenTo (-exponent).toNat)

inductive Literal where
  | finite (negative : Bool) (digits : Nat) (exponent : Int)
  | infinite
  | notANumber
deriving DecidableEq

namespace Literal

/-- The exponent part at the end of a number, zero when there is none. -/
def readExponent? : List Char → Option Int
  | [] => some 0
  | c :: rest =>
    if c = 'e' || c = 'E' then
      match rest with
      | '+' :: digits => (Text.readNatural? digits).map Int.ofNat
      | '-' :: digits => (Text.readNatural? digits).map fun n => -Int.ofNat n
      | digits => (Text.readNatural? digits).map Int.ofNat
    else none

/-- A number without its sign, as digits and a power of ten. A digit stands on one side of the
point at least. -/
def readMagnitude? (cs : List Char) : Option (Nat × Int) :=
  let whole := cs.takeWhile Char.isDigit
  match cs.dropWhile Char.isDigit with
  | '.' :: rest =>
    let fraction := rest.takeWhile Char.isDigit
    (Text.readNatural? (whole ++ fraction)).bind fun digits =>
      (readExponent? (rest.dropWhile Char.isDigit)).map fun exponent =>
        (digits, exponent - Int.ofNat fraction.length)
  | rest =>
    (Text.readNatural? whole).bind fun digits =>
      (readExponent? rest).map fun exponent => (digits, exponent)

def readUnsigned? (negative : Bool) (cs : List Char) : Option Literal :=
  let word := cs.map Char.toLower
  if word = ['i', 'n', 'f'] || word = ['i', 'n', 'f', 'i', 'n', 'i', 't', 'y'] then some infinite
  else if word = ['n', 'a', 'n'] then some notANumber
  else (readMagnitude? cs).map fun (digits, exponent) => finite negative digits exponent

def read? : List Char → Option Literal
  | '+' :: rest => readUnsigned? false rest
  | '-' :: rest => readUnsigned? true rest
  | cs => readUnsigned? false cs

/-- The value, where it is finite. -/
def toDouble? : Literal → Option Double
  | finite negative digits exponent => Double.ofDecimal? negative digits exponent
  | infinite => none
  | notANumber => none

end Literal

end Fabula.Binary
