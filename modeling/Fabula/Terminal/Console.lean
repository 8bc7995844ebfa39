import Fabula.Player.Event

/-!
The console: events as lines of text. It remembers who speaks.
-/

namespace Fabula

structure Console where
  speaker : Option String
deriving DecidableEq, Repr

namespace Console

def new : Console := ⟨none⟩

/-- A character as it is named before a text. -/
def speakerText (name extra : String) : String :=
  if extra = "" then name else name ++ " (" ++ extra ++ ")"

def textLine (c : Console) (content : String) : String :=
  match c.speaker with
  | some speaker => speaker ++ ": " ++ content
  | none => content

/-- An option with its number. -/
def optionLine (option : String × Nat) : String :=
  "  " ++ toString option.2 ++ ". " ++ option.1

def endLine : String := "-- end --"

/-- The lines of an event, and the console after it. -/
def shows (c : Console) : Event → List String × Console
  | .character name extra => ([], ⟨some (speakerText name extra)⟩)
  | .clearCharacter => ([], ⟨none⟩)
  | .text content => ([c.textLine content], c)
  | .menu options => ((options.zipIdx 1).map optionLine, c)
  | .clearMenu => ([], c)
  | .visible shown => (if shown then [] else [endLine], c)

def showsAll (c : Console) : List Event → List String × Console
  | [] => ([], c)
  | e :: rest =>
    let (lines, next) := c.shows e
    let (more, last) := next.showsAll rest
    (lines ++ more, last)

end Console

end Fabula
