import Fabula.Json.Printer
import Fabula.Store
import Fabula.Text.Blank

/-!
Text templates. A name in braces stands for the value of a variable; braces neither nest nor stand
alone. A string is inserted as it is, any other value as compact JSON, an unset variable as
nothing, and what is inserted is not read again.
-/

namespace Fabula.Template

inductive Piece where
  | char (c : Char)
  | placeholder (name : List Char)
deriving DecidableEq

mutual

/-- The pieces of a text, if its braces are balanced. -/
def pieces? : List Char → Option (List Piece)
  | [] => some []
  | c :: rest =>
    if c = '\x7b' then nameAndPieces? [] rest
    else if c = '\x7d' then none
    else (pieces? rest).map (.char c :: ·)

/-- The pieces of a text that begins inside a placeholder, after the characters of `name`, the
last of them first. -/
def nameAndPieces? (name : List Char) : List Char → Option (List Piece)
  | [] => none
  | c :: rest =>
    if c = '\x7b' then none
    else if c = '\x7d' then (pieces? rest).map (.placeholder name.reverse :: ·)
    else nameAndPieces? (c :: name) rest

end

/-- The text inserted for a value. -/
def insertion : Option Json → List Char
  | none => []
  | some (.str s) => s.toList
  | some value => value.write

def Piece.expand (store : Store) : Piece → List Char
  | char c => [c]
  | placeholder name => insertion (store.get? (String.ofList (Text.trim name)))

/-- The text with every placeholder replaced; nothing when the braces are unbalanced. -/
def render? (store : Store) (content : String) : Option String :=
  (pieces? content.toList).map fun pieces => String.ofList (pieces.flatMap (·.expand store))

end Fabula.Template
