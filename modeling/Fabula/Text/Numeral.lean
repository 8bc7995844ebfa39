/-!
Decimal numerals of whole numbers, and the powers that tell how long a number is. A numeral is one
or more of the digits 0 to 9, after an optional sign; reading refuses everything else, blanks
included.
-/

namespace Fabula

def twoTo (n : Nat) : Nat := Nat.pow 2 n

def tenTo (n : Nat) : Nat := Nat.pow 10 n

theorem twoTo_succ (n : Nat) : twoTo (n + 1) = twoTo n * 2 := rfl

end Fabula

namespace Fabula.Text

/-- The value of a decimal digit. -/
def digit? (c : Char) : Option Nat :=
  if c.isDigit then some (c.toNat - '0'.toNat) else none

def readDigits (value : Nat) : List Char → Option Nat
  | [] => some value
  | c :: rest => (digit? c).bind fun d => readDigits (10 * value + d) rest

/-- A numeral without a sign. -/
def readNatural? : List Char → Option Nat
  | [] => none
  | cs => readDigits 0 cs

/-- A numeral below `bound`; a plus sign may stand before it. -/
def readUnsigned? (bound : Nat) (cs : List Char) : Option Nat :=
  let digits := match cs with
    | '+' :: rest => rest
    | _ => cs
  (readNatural? digits).filter (· < bound)

/-- Whether a number fits so many bits in two's complement. -/
def fitsSigned (bits : Nat) (i : Int) : Bool :=
  -Int.ofNat (twoTo (bits - 1)) ≤ i && i < Int.ofNat (twoTo (bits - 1))

/-- Whether a number is not negative and fits so many bits. -/
def fitsUnsigned (bits : Nat) (i : Int) : Bool := 0 ≤ i && i < Int.ofNat (twoTo bits)

/-- A numeral with an optional sign whose value fits 64 bits in two's complement. -/
def readInteger? (cs : List Char) : Option Int :=
  let value := match cs with
    | '+' :: rest => (readNatural? rest).map Int.ofNat
    | '-' :: rest => (readNatural? rest).map fun n => -Int.ofNat n
    | _ => (readNatural? cs).map Int.ofNat
  value.filter (fitsSigned 64)

end Fabula.Text
