import Fabula.Text.Blank
import Fabula.Text.Quoted.Table

/-!
Texts in quotes. Inside the quotes a quote and a backslash follow a backslash, the usual controls
have a letter, and a character that cannot be shown on its own is written by its code point.
-/

namespace Fabula.Text

namespace Quoted

/-- A code point in lower-case hexadecimal, in braces. -/
def codePoint (c : Char) : List Char :=
  ['\\', 'u', '\x7b'] ++ Nat.toDigits 16 c.toNat ++ ['\x7d']

def escape (c : Char) : List Char :=
  if c = '\x00' then ['\\', '0']
  else if c = '\t' then ['\\', 't']
  else if c = '\n' then ['\\', 'n']
  else if c = '\r' then ['\\', 'r']
  else if c = '"' || c = '\\' then ['\\', c]
  else if c.toNat < 0x7F && 0x20 ≤ c.toNat then [c]
  else if within extending c || within unprintable c then codePoint c
  else [c]

def encode (s : String) : List Char :=
  ['"'] ++ s.toList.flatMap escape ++ ['"']

end Quoted

/-- A list of texts: each in quotes, commas between them, brackets around the whole. -/
def quotedList (texts : List String) : String :=
  let items := texts.map fun text => String.ofList (Quoted.encode text)
  "[" ++ String.intercalate ", " items ++ "]"

example : quotedList ["a\"", "b\t", "日'"] = "[\"a\\\"\", \"b\\t\", \"日'\"]" := by decide +kernel

end Fabula.Text
