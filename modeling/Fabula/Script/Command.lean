import Fabula.Text.Blank
import Fabula.Text.Numeral
import Fabula.Text.Split

/-!
Commands of extensions. A command is a name and a text of calls; the text holds the calls with
semicolons between them, each a word and what follows its first space.
-/

namespace Fabula.Script

/-- What a command asks of the player that executes it. -/
inductive Call where
  /-- Go on to the next sentence. -/
  | advance
  /-- Go on at a sentence. -/
  | goto (index : Nat)
  /-- Leave the script by a label. -/
  | jump (label : String)
  /-- Leave the script by the default outlet. -/
  | next
  /-- Open a scope. -/
  | push (opener : Nat)
  /-- Close the innermost scope and show what it was. -/
  | pop
  /-- Show the current index. -/
  | index
  | character (key extra : String)
  | clearCharacter
  | text (content : String)
  | menu (texts : List String)
  /-- Skip the calls after this one unless the condition holds. -/
  | guard (condition : String)
  | fail (message : String)
  | unknown (piece : String)
deriving DecidableEq, Repr

namespace Call

/-- The word at the front of a piece, and what follows its first space. -/
def firstWord (piece : List Char) : List Char × List Char :=
  (Text.cutAt ' ' piece).getD (piece, [])

/-- A number as an argument of a call: it fits 64 bits. -/
def readIndex? (cs : List Char) : Option Nat := Text.readUnsigned? (twoTo 64) cs

def ofPiece (piece : List Char) : Call :=
  let (word, rest) := firstWord piece
  let content := String.ofList rest
  let unknown := Call.unknown (String.ofList piece)
  match String.ofList word with
  | "advance" => advance
  | "goto" => ((readIndex? rest).map goto).getD unknown
  | "jump" => jump content
  | "next" => next
  | "push" => ((readIndex? rest).map push).getD unknown
  | "pop" => pop
  | "index" => index
  | "char" =>
    let (key, extra) := firstWord rest
    character (String.ofList key) (String.ofList extra)
  | "clear" => clearCharacter
  | "text" => text content
  | "menu" => menu ((rest.splitOn '|').map String.ofList)
  | "if" => guard content
  | "fail" => fail content
  | _ => unknown

end Call

structure Command where
  name : String
  calls : String
deriving DecidableEq, Repr

/-- The calls of a command in order; blank pieces are left out. -/
def Command.steps (c : Command) : List Call :=
  let pieces := (c.calls.toList.splitOn ';').map Text.trim
  (pieces.filter fun piece => !piece.isEmpty).map Call.ofPiece

end Fabula.Script
