import Fabula.Text.Blank
import Fabula.Text.Lowercase.Table

/-!
Lower-casing of a whole text, as Unicode defines it. One character may become two, and a capital
sigma takes its final form at the end of a word: when the nearest letter before it has case and
the nearest after it has not, characters of the class `ignorable` passed over.
-/

namespace Fabula.Text

namespace Lowercase

def Run.covers (run : Run) (c : Char) : Bool :=
  run.first ≤ c.toNat && c.toNat ≤ run.last && (c.toNat - run.first) % run.step == 0

/-- The lower case of a character on its own. -/
def ofChar (c : Char) : List Char :=
  if c.toNat < 0x80 then [c.toLower]
  else if c = '\u0130' then ['i', '\u0307']
  else match runs.find? (·.covers c) with
    | some run => [Char.ofNat (Int.ofNat c.toNat + run.shift).toNat]
    | none => [c]

/-- Whether the first character that is not ignorable has case. -/
def meetsCased (cs : List Char) : Bool :=
  match cs.dropWhile (within ignorable) with
  | [] => false
  | c :: _ => within cased c

/-- Lower-cases `cs`, which follows the characters of `before`, the nearest first. -/
def following (before : List Char) : List Char → List Char
  | [] => []
  | c :: rest =>
    let here :=
      if c = 'Σ' then [if meetsCased before && !meetsCased rest then 'ς' else 'σ']
      else ofChar c
    here ++ following (c :: before) rest

end Lowercase

def lowercase (cs : List Char) : List Char := Lowercase.following [] cs

example : lowercase "ΟΔΟΣ Σ".toList = "οδος σ".toList := by decide +kernel

example : lowercase "İ".toList = "i\u0307".toList := by decide +kernel

end Fabula.Text
