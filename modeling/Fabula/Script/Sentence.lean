import Fabula.Script.Command

/-!
Sentences, the instructions of a compiled script. A script is a flat list of them: menus and
conditionals open a block and name, by index, the sentence that closes it and the sentences where
their options or branches begin.
-/

namespace Fabula.Script

/-- A line of dialogue; narration has an empty speaker. -/
structure Say where
  speaker : String
  extra : String
  text : String
deriving DecidableEq, Repr

structure MenuOption where
  text : String
  /-- The first sentence of the option's body. -/
  target : Nat
deriving DecidableEq, Repr

structure Menu where
  options : List MenuOption
  /-- The closer of the block, once it is known. -/
  exit : Option Nat
deriving DecidableEq, Repr

structure Branch where
  condition : String
  /-- The first sentence of the branch. -/
  target : Nat
deriving DecidableEq, Repr

structure Conditional where
  condition : String
  branches : List Branch
  /-- The first sentence of the last branch, which has no condition. -/
  otherwise : Option Nat
  /-- The closer of the block, once it is known. -/
  exit : Option Nat
deriving DecidableEq, Repr

inductive Sentence where
  | say (line : Say)
  | close
  | menu (menu : Menu)
  /-- The marker of an option of the menu at index `menu`. -/
  | option (text : String) (menu : Nat)
  | conditional (block : Conditional)
  /-- The marker of a branch of the conditional at index `owner`. -/
  | branch (condition : String) (owner : Nat)
  /-- The marker of the last branch of the conditional at index `owner`. -/
  | otherwise (owner : Nat)
  /-- Leaves the script by a label, or by the default outlet. -/
  | jump (label : Option String)
  | command (command : Command)
deriving DecidableEq, Repr

/-- Where control goes after the block opened at `own`: its closer, or the next sentence when the
block was never closed. -/
def exitPoint (exit : Option Nat) (own : Nat) : Nat := exit.getD (own + 1)

namespace Sentence

def isOpenMenu : Sentence → Bool
  | menu m => m.exit.isNone
  | _ => false

def isOpenConditional : Sentence → Bool
  | conditional c => c.exit.isNone
  | _ => false

/-- Whether this sentence opens a block that has no closer. -/
def isOpen (s : Sentence) : Bool := s.isOpenMenu || s.isOpenConditional

def isSay : Sentence → Bool
  | say _ => true
  | _ => false

/-- The block of an opener ends at `exit`. -/
def closeAt (exit : Nat) : Sentence → Sentence
  | menu m => menu { m with exit := some exit }
  | conditional c => conditional { c with exit := some exit }
  | s => s

def addOption (text : String) (target : Nat) : Sentence → Sentence
  | menu m => menu { m with options := m.options ++ [⟨text, target⟩] }
  | s => s

def addBranch (condition : String) (target : Nat) : Sentence → Sentence
  | conditional c => conditional { c with branches := c.branches ++ [⟨condition, target⟩] }
  | s => s

def setOtherwise (target : Nat) : Sentence → Sentence
  | conditional c => conditional { c with otherwise := some target }
  | s => s

def hasOtherwise : Sentence → Bool
  | conditional c => c.otherwise.isSome
  | _ => false

/-- The sentence as a line of source. -/
def write : Sentence → String
  | say line =>
    if line.extra = "" then line.speaker ++ ": " ++ line.text
    else line.speaker ++ "(" ++ line.extra ++ "): " ++ line.text
  | close => "/"
  | menu _ => "[Menu]"
  | option text _ => "- " ++ text
  | conditional c => "[If] " ++ c.condition
  | branch condition _ => "[Elif] " ++ condition
  | otherwise _ => "[Else]"
  | jump (some label) => "[Jump] " ++ label
  | jump none => "[Jump]"
  | command c => "[" ++ c.name ++ "]"

/-- Where the innermost open scope, the block that `scope` opened at `own`, sends control instead
of `current`: a closed block that meets the marker of one of its branches ends there. -/
def redirect (scope : Sentence) (own : Nat) (current : Sentence) : Option Nat :=
  match scope, current with
  | menu m, option _ owner => if owner = own then m.exit else none
  | conditional c, branch _ owner => if owner = own then c.exit else none
  | conditional c, otherwise owner => if owner = own then c.exit else none
  | _, _ => none

end Sentence

end Fabula.Script
