import Fabula.Player.Director
import Fabula.Player.Error
import Fabula.Player.Event
import Fabula.Store

/-!
The state of a player: the script and the index of the sentence whose turn it is, the blocks that
are open around it, the variables, and all that has been shown. The operations here are the ones
that a sentence may use; what a sentence does and how turns follow each other is in
`Fabula.Player.Turn`.
-/

namespace Fabula

inductive Status where
  /-- Nothing is loaded, or the last run failed. -/
  | idle
  | running
  /-- Waits for the host. -/
  | suspended
  | finished
deriving DecidableEq, Repr

structure Player (D : Type) where
  director : D
  store : Store
  script : Option Script
  index : Nat
  /-- The openers of the blocks that are open, the innermost first. -/
  scopes : List Nat
  status : Status
  /-- Whether the sentence under way has said where control goes next. -/
  moved : Bool
  /-- The number of runs begun so far. -/
  runs : Nat
  /-- The run whose completion a callback waits for. -/
  awaited : Option Nat
  /-- The runs whose callbacks were called. -/
  completed : List Nat
  /-- How often each observer was called. -/
  observers : List Nat
  events : List Event

namespace Player

variable {D : Type}

/-- A player that has not begun. -/
def new (director : D) (store : Store) : Player D :=
  { director, store, script := none, index := 0, scopes := [], status := .idle, moved := false,
    runs := 0, awaited := none, completed := [], observers := [], events := [] }

/-- What a sentence leads to: the player after it, or an error and the player as it then was. -/
abbrev Attempt (D : Type) := Except (RunError × Player D) (Player D)

def Attempt.andThen (a : Attempt D) (f : Player D → Attempt D) : Attempt D :=
  match a with
  | .ok p => f p
  | .error e => .error e

def shows (p : Player D) (e : Event) : Player D := { p with events := p.events ++ [e] }

def sentence? (p : Player D) : Option Script.Sentence :=
  p.script.bind fun script => script.sentence? p.index

/-- The current sentence as text, empty when there is none. -/
def currentText (p : Player D) : String := (p.sentence?.map Script.Sentence.write).getD ""

/-- Control goes to a sentence. -/
def goto (p : Player D) (target : Nat) : Player D := { p with index := target, moved := true }

/-- Control goes to the next sentence. -/
def advance (p : Player D) : Player D := p.goto (p.index + 1)

def pushScope (p : Player D) (opener : Nat) : Player D := { p with scopes := opener :: p.scopes }

def popScope (p : Player D) : Player D := { p with scopes := p.scopes.tail }

/-- Starts a script from its first sentence. -/
def load (p : Player D) (script : Script) : Player D :=
  { p with script := some script, index := 0, scopes := [], moved := true }

/-- Ends the run: a callback that waits for it is called, and so is every observer. -/
def finish (p : Player D) : Player D :=
  { p with
    status := .finished
    scopes := []
    events := p.events ++ [.visible false]
    completed := p.completed ++ p.awaited.toList
    awaited := none
    observers := p.observers.map (· + 1) }

/-- Gives the run up after an error. -/
def abort (p : Player D) : Player D := { p with status := .idle, scopes := [], awaited := none }

/-- Obeys the director after a jump. -/
def transfer (p : Player D) : Transfer → Player D
  | .stay => p.advance
  | .execute script => p.load script
  | .finish => p.finish

/-- Jumps away by an outlet. -/
def leave [Director D] (p : Player D) (outlet : String) : Attempt D :=
  match Director.leave p.director outlet with
  | (.ok t, d) => .ok ({ p with director := d }.transfer t)
  | (.error e, d) => .error (.chain e, { p with director := d })

def setCharacter [Director D] (p : Player D) (key extra : String) : Attempt D :=
  match p.script.bind fun script => Director.character? p.director script key with
  | some name => .ok (p.shows (.character name extra))
  | none => .error (.unknownCharacter key p.index p.currentText, p)

def clearCharacter (p : Player D) : Player D := p.shows .clearCharacter

end Player

end Fabula
