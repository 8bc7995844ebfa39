import Fabula.Json.Number
import Fabula.Text.Numeral

/-!
Reading JSON text. A reader answers the value and the text after it, or nothing when the text is
malformed; values nest at most 127 deep. Repeated keys keep the last value.
-/

namespace Fabula.Json

def skipBlanks (cs : List Char) : List Char :=
  cs.dropWhile fun c => c = ' ' || c = '\n' || c = '\t' || c = '\r'

def hexDigit? (c : Char) : Option Nat :=
  if c.isDigit then some (c.toNat - '0'.toNat)
  else if 'a' ≤ c ∧ c ≤ 'f' then some (c.toNat - 'a'.toNat + 10)
  else if 'A' ≤ c ∧ c ≤ 'F' then some (c.toNat - 'A'.toNat + 10)
  else none

/-- The value of four hexadecimal digits. -/
def unit? (a b c d : Char) : Option Nat := do
  return (((← hexDigit? a) * 16 + (← hexDigit? b)) * 16 + (← hexDigit? c)) * 16 + (← hexDigit? d)

def unescape? (c : Char) : Option Char :=
  if c = '"' || c = '\\' || c = '/' then some c
  else if c = 'b' then some '\x08'
  else if c = 'f' then some '\x0c'
  else if c = 'n' then some '\n'
  else if c = 'r' then some '\r'
  else if c = 't' then some '\t'
  else none

/-- The character of a pair of surrogates. -/
def joinSurrogates? (high low : Nat) : Option Char :=
  if 0xDC00 ≤ low && low < 0xE000 then
    some (Char.ofNat (0x10000 + (high - 0xD800) * 0x400 + (low - 0xDC00)))
  else none

/-- The characters of a string after its opening quote. -/
def readString : List Char → Option (List Char × List Char)
  | [] => none
  | '"' :: rest => some ([], rest)
  | '\\' :: 'u' :: a :: b :: c :: d :: rest => do
    let unit ← unit? a b c d
    if 0xD800 ≤ unit && unit < 0xDC00 then
      match rest with
      | '\\' :: 'u' :: e :: f :: g :: h :: rest =>
        let char ← joinSurrogates? unit (← unit? e f g h)
        let (more, rest) ← readString rest
        return (char :: more, rest)
      | _ => none
    else if 0xDC00 ≤ unit && unit < 0xE000 then none
    else
      let (more, rest) ← readString rest
      return (Char.ofNat unit :: more, rest)
  | '\\' :: c :: rest => do
    let char ← unescape? c
    let (more, rest) ← readString rest
    return (char :: more, rest)
  | c :: rest => do
    if c.toNat < 0x20 || c = '\\' then none
    let (more, rest) ← readString rest
    return (c :: more, rest)

/-- The digits at the front of the text, one at least. -/
def readDigits? (cs : List Char) : Option (List Char × List Char) :=
  match cs.takeWhile Char.isDigit with
  | [] => none
  | digits => some (digits, cs.dropWhile Char.isDigit)

/-- The whole part of a number: a zero alone, or digits that start with another. -/
def readWhole? : List Char → Option (List Char × List Char)
  | '0' :: rest => some (['0'], rest)
  | cs => readDigits? cs

def readFraction? : List Char → Option (Option (List Char) × List Char)
  | '.' :: rest => (readDigits? rest).map fun (digits, rest) => (some digits, rest)
  | cs => some (none, cs)

def readSignedDigits? : List Char → Option (Int × List Char)
  | '+' :: rest => (readDigits? rest).bind fun (digits, rest) =>
    (Text.readNatural? digits).map fun n => (Int.ofNat n, rest)
  | '-' :: rest => (readDigits? rest).bind fun (digits, rest) =>
    (Text.readNatural? digits).map fun n => (-Int.ofNat n, rest)
  | cs => (readDigits? cs).bind fun (digits, rest) =>
    (Text.readNatural? digits).map fun n => (Int.ofNat n, rest)

def readExponent? : List Char → Option (Option Int × List Char)
  | 'e' :: rest => (readSignedDigits? rest).map fun (i, rest) => (some i, rest)
  | 'E' :: rest => (readSignedDigits? rest).map fun (i, rest) => (some i, rest)
  | cs => some (none, cs)

def readNumber? (cs : List Char) : Option (Json × List Char) := do
  let (negative, cs) := match cs with
    | '-' :: rest => (true, rest)
    | _ => (false, cs)
  let (whole, cs) ← readWhole? cs
  let (fraction, cs) ← readFraction? cs
  let (exponent, cs) ← readExponent? cs
  return (← ofNumeral? negative whole fraction exponent, cs)

mutual

/-- A value that nests at most `depth` deep; `fuel` bounds the number of values and separators. -/
def readValue : Nat → Nat → List Char → Option (Json × List Char)
  | 0, _, _ => none
  | fuel + 1, depth, cs =>
    match skipBlanks cs with
    | 'n' :: 'u' :: 'l' :: 'l' :: rest => some (null, rest)
    | 't' :: 'r' :: 'u' :: 'e' :: rest => some (bool true, rest)
    | 'f' :: 'a' :: 'l' :: 's' :: 'e' :: rest => some (bool false, rest)
    | '"' :: rest => (readString rest).map fun (chars, rest) => (str (String.ofList chars), rest)
    | '[' :: rest =>
      if depth = 0 then none
      else match skipBlanks rest with
        | ']' :: rest => some (arr [], rest)
        | rest => (readItems fuel (depth - 1) rest).map fun (items, rest) => (arr items, rest)
    | '\x7b' :: rest =>
      if depth = 0 then none
      else match skipBlanks rest with
        | '\x7d' :: rest => some (obj [], rest)
        | rest => (readFields fuel (depth - 1) rest).map fun (fields, rest) =>
          (ofFields fields, rest)
    | rest => readNumber? rest

/-- One item or more, and the bracket that closes them. -/
def readItems : Nat → Nat → List Char → Option (List Json × List Char)
  | 0, _, _ => none
  | fuel + 1, depth, cs => do
    let (item, rest) ← readValue fuel depth cs
    match skipBlanks rest with
    | ']' :: rest => return ([item], rest)
    | ',' :: rest =>
      let (items, rest) ← readItems fuel depth rest
      return (item :: items, rest)
    | _ => none

/-- One field or more, and the brace that closes them. -/
def readFields : Nat → Nat → List Char → Option (List (String × Json) × List Char)
  | 0, _, _ => none
  | fuel + 1, depth, cs => do
    match skipBlanks cs with
    | '"' :: rest =>
      let (key, rest) ← readString rest
      match skipBlanks rest with
      | ':' :: rest =>
        let (value, rest) ← readValue fuel depth rest
        match skipBlanks rest with
        | '\x7d' :: rest => return ([(String.ofList key, value)], rest)
        | ',' :: rest =>
          let (fields, rest) ← readFields fuel depth rest
          return ((String.ofList key, value) :: fields, rest)
        | _ => none
      | _ => none
    | _ => none

end

/-- How deep values may nest. -/
def depthLimit : Nat := 127

/-- Reads a text that holds one value and blanks around it. -/
def parse? (cs : List Char) : Option Json := do
  let (value, rest) ← readValue (2 * cs.length + 2) depthLimit cs
  if (skipBlanks rest).isEmpty then some value else none

end Fabula.Json
