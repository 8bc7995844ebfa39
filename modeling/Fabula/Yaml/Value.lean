import Fabula.Binary.Literal
import Fabula.Json.Parser
import Fabula.Yaml.Basic

/-!
What plain scalars mean where no text is asked for: nothing, a truth value, a number, or text. A
numeral that begins with a zero, more digits following, is text.
-/

namespace Fabula.Yaml

open Binary (Double Literal)

inductive Value where
  | null
  | bool (b : Bool)
  | int (i : Int)
  /-- A whole number of more than 64 bits. -/
  | wide
  | float (d : Double)
  | infinite (negative : Bool)
  | notANumber
  | text (s : String)
deriving DecidableEq

def isNullWord (s : String) : Bool := s = "" || s = "~" || s = "null" || s = "Null" || s = "NULL"

def isTrueWord (s : String) : Bool := s = "true" || s = "True" || s = "TRUE"

def isFalseWord (s : String) : Bool := s = "false" || s = "False" || s = "FALSE"

def beginsWithSign : List Char → Bool
  | c :: _ => c = '+' || c = '-'
  | [] => false

/-- Digits in a base, one at least. -/
def readDigits? (base : Nat) : List Char → Option Nat
  | [] => none
  | digits => digits.foldlM (fun n c =>
      (Json.hexDigit? c).bind fun d => if d < base then some (base * n + d) else none) 0

/-- A number without a sign, in the base that its mark tells. -/
def readMagnitude? (digits : List Char) : Option Nat :=
  match digits with
  | '0' :: 'x' :: rest => readDigits? 16 rest
  | '0' :: 'o' :: rest => readDigits? 8 rest
  | '0' :: 'b' :: rest => readDigits? 2 rest
  | '0' :: _ :: _ => none
  | _ => readDigits? 10 digits

def readWhole? : List Char → Option Int
  | '+' :: rest => (readMagnitude? rest).map Int.ofNat
  | '-' :: rest => (readMagnitude? rest).map fun n => -Int.ofNat n
  | cs => (readMagnitude? cs).map Int.ofNat

/-- Digits that begin with a zero. -/
def isZeroPadded (cs : List Char) : Bool :=
  let digits := if beginsWithSign cs then cs.drop 1 else cs
  1 < digits.length && digits.head? = some '0' && digits.all Char.isDigit

def isInfinityWord (s : String) : Bool := s = ".inf" || s = ".Inf" || s = ".INF"

/-- A decimal that is finite, or one of the words for what is not. -/
def readFloat? (cs : List Char) : Option Value :=
  let unsigned := match cs with
    | '+' :: rest => rest
    | _ => cs
  if cs.head? = some '+' && beginsWithSign unsigned then none
  else if isInfinityWord (String.ofList unsigned) then some (.infinite false)
  else if cs.head? = some '-' && isInfinityWord (String.ofList (cs.drop 1)) then
    some (.infinite true)
  else if [".nan", ".NaN", ".NAN"].contains (String.ofList cs) then some .notANumber
  else ((Literal.read? unsigned).bind Literal.toDouble?).map Value.float

/-- A whole number by its size. -/
def ofWhole? (i : Int) : Option Value :=
  if Text.fitsSigned 64 i || Text.fitsUnsigned 64 i then some (.int i)
  else if Text.fitsSigned 128 i || Text.fitsUnsigned 128 i then some .wide
  else none

/-- What a plain scalar means. -/
def resolve (s : String) : Value :=
  let cs := s.toList
  if isNullWord s then .null
  else if isTrueWord s then .bool true
  else if isFalseWord s then .bool false
  else match (readWhole? cs).bind ofWhole? with
    | some v => v
    | none => if isZeroPadded cs then .text s else (readFloat? cs).getD (.text s)

/-- What a scalar means; one in quotes is text. -/
def value? : Yaml → Option Value
  | scalar true s => some (.text s)
  | scalar false s => some (resolve s)
  | _ => none

/-- The text of a scalar that means text. -/
def text? (y : Yaml) : Option String :=
  match y.value? with
  | some (.text s) => some s
  | _ => none

mutual

/-- Whether no whole number in the tree is too wide. -/
def isSettled : Yaml → Bool
  | scalar quoted s => quoted || resolve s != .wide
  | seq items => areSettled items
  | map entries => areSettledEntries entries

def areSettled : List Yaml → Bool
  | [] => true
  | y :: rest => isSettled y && areSettled rest

def areSettledEntries : List (Yaml × Yaml) → Bool
  | [] => true
  | (key, value) :: rest => isSettled key && isSettled value && areSettledEntries rest

end

end Fabula.Yaml
