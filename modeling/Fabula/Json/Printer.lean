import Fabula.Json.Number

/-!
The compact text of a JSON value: no blanks, fields in the order of their keys, and only quotes,
backslashes and the controls below the space escaped.
-/

namespace Fabula.Json

def escape (c : Char) : List Char :=
  if c = '"' then ['\\', '"']
  else if c = '\\' then ['\\', '\\']
  else if c = '\x08' then ['\\', 'b']
  else if c = '\t' then ['\\', 't']
  else if c = '\n' then ['\\', 'n']
  else if c = '\x0c' then ['\\', 'f']
  else if c = '\r' then ['\\', 'r']
  else if c.toNat < 0x20 then
    ['\\', 'u', '0', '0', Nat.digitChar (c.toNat / 16), Nat.digitChar (c.toNat % 16)]
  else [c]

def writeString (s : String) : List Char := ['"'] ++ s.toList.flatMap escape ++ ['"']

mutual

def write : Json → List Char
  | null => ['n', 'u', 'l', 'l']
  | bool true => ['t', 'r', 'u', 'e']
  | bool false => ['f', 'a', 'l', 's', 'e']
  | int i => (toString i).toList
  | float d => d.write
  | str s => writeString s
  | arr [] => ['[', ']']
  | arr (item :: rest) => '[' :: write item ++ writeItems rest
  | obj [] => ['\x7b', '\x7d']
  | obj ((key, value) :: rest) =>
    '\x7b' :: writeString key ++ ':' :: write value ++ writeFields rest

/-- The items after the first, and the bracket that closes the array. -/
def writeItems : List Json → List Char
  | [] => [']']
  | item :: rest => ',' :: write item ++ writeItems rest

/-- The fields after the first, and the brace that closes the object. -/
def writeFields : List (String × Json) → List Char
  | [] => ['\x7d']
  | (key, value) :: rest => ',' :: writeString key ++ ':' :: write value ++ writeFields rest

end

def text (j : Json) : String := String.ofList j.write

end Fabula.Json
