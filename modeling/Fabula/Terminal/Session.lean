import Fabula.Player.Host
import Fabula.Report
import Fabula.Terminal.Console
import Fabula.Text.Blank
import Fabula.Text.Numeral

/-!
Playing at a terminal. A session waits for lines while its player is suspended: a line goes on with
the story or, when a menu is open, picks one of its options by number.
-/

namespace Fabula

/-- The lines that something prints, and then its result or what went wrong. -/
structure Printing (α : Type) where
  lines : List String
  result : Except Report α

namespace Printing

variable {α β : Type}

def of (a : α) : Printing α := ⟨[], .ok a⟩

def fail (r : Report) : Printing α := ⟨[], .error r⟩

/-- Goes on with the result; a failure ends it. -/
def andThen (p : Printing α) (f : α → Printing β) : Printing β :=
  match p.result with
  | .ok a => ⟨p.lines ++ (f a).lines, (f a).result⟩
  | .error r => ⟨p.lines, .error r⟩

end Printing

def RunError.report (e : RunError) : Report :=
  match e with
  | .chain (.compile _ source) => ⟨e.message, [source.message]⟩
  | _ => ⟨e.message, []⟩

structure Session (D : Type) where
  player : Player D
  console : Console

namespace Session

variable {D : Type}

/-- Prints what a player has shown since it was last asked. -/
def after (console : Console) (o : Player.Outcome D) : Printing (Session D) :=
  let (lines, console) := console.showsAll o.player.events
  ⟨lines, match o.error? with
    | some e => .error e.report
    | none => .ok ⟨o.player.clearLog, console⟩⟩

/-- Whether the session waits for a line. -/
def waits (s : Session D) : Bool := s.player.status = .suspended

/-- The choice, counted from 0, that a line makes among so many options. -/
def choice? (count : Nat) (line : List Char) : Option Nat :=
  (Text.readUnsigned? (twoTo 64) (Text.trim line)).bind fun n =>
    if 1 ≤ n && n ≤ count then some (n - 1) else none

/-- What is printed for a line that chooses none of the options. -/
def complaint (count : Nat) : String := "choose 1-" ++ toString count

/-- Takes a line. -/
def feed [Director D] (s : Session D) (line : List Char) : Printing (Session D) :=
  match s.player.waitingMenu? with
  | none => after s.console (s.player.proceed Player.patience)
  | some menu =>
    match choice? menu.options.length line with
    | some choice => after s.console (s.player.choose Player.patience choice)
    | none => ⟨[complaint menu.options.length], .ok s⟩

/-- Takes lines while the session waits for them. -/
def feedAll [Director D] (s : Session D) : List (List Char) → Printing Unit
  | [] => .of ()
  | line :: rest =>
    if s.waits then (s.feed line).andThen fun next => next.feedAll rest else .of ()

end Session

end Fabula
