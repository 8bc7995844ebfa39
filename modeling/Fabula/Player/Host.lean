import Fabula.Player.Turn

/-!
What a host asks of a player. Every request says how many turns it grants; a player that waits is
resumed by one of `proceed`, `goto`, `choose` and `jump`, and these refuse a player that does not.
-/

namespace Fabula.Player

open Script (Menu)

variable {D : Type}

/-- Turns that no sensible story takes without a pause. -/
def patience : Nat := 1000000

def drive [Director D] (turns : Nat) (p : Player D) : Outcome D :=
  run turns { p with status := .running }

/-- Begins a run and abandons the one before it. With `callback` its completion is awaited. -/
def begin (p : Player D) (callback : Bool) : Player D :=
  { p with
    runs := p.runs + 1
    awaited := if callback then some (p.runs + 1) else none
    status := .running
    events := p.events ++ [.visible true] }

/-- Plays a script from its first sentence. -/
def play [Director D] (turns : Nat) (p : Player D) (script : Script) (callback : Bool) :
    Outcome D :=
  drive turns ((p.begin callback).load script)

/-- The menu that waits for a choice: the sentence at the index, if it is the innermost open
block too. -/
def waitingMenu? (p : Player D) : Option Menu :=
  if p.status = .suspended ∧ p.scopes.head? = some p.index then
    match p.sentence? with
    | some (.menu m) => some m
    | _ => none
  else none

/-- Goes on with the next sentence; this passes a menu over. -/
def proceed [Director D] (turns : Nat) (p : Player D) : Outcome D :=
  if p.status = .suspended then
    let q := if p.waitingMenu?.isSome then p.shows .clearMenu else p
    drive turns { q with index := q.index + 1 }
  else .failed .notRunning p

def resumeAt [Director D] (turns : Nat) (p : Player D) (index : Nat) : Outcome D :=
  if p.status = .suspended then drive turns { p with index := index }
  else .failed .notRunning p

/-- Picks an option of the menu that waits and goes on with its body. -/
def choose [Director D] (turns : Nat) (p : Player D) (choice : Nat) : Outcome D :=
  if p.status = .suspended then
    match p.waitingMenu? with
    | none => .failed .noActiveMenu p
    | some m =>
      match m.options[choice]? with
      | none => .failed (.invalidChoice choice m.options.length) p
      | some o => drive turns { p.shows .clearMenu with index := o.target }
  else .failed .notRunning p

/-- Jumps away by an outlet, as the script itself would. -/
def jump [Director D] (turns : Nat) (p : Player D) (outlet : String) : Outcome D :=
  if p.status = .suspended then
    match p.leave outlet with
    | .error (e, q) => .failed e q
    | .ok q => if q.status = .finished then .done q else drive turns q
  else .failed .notRunning p

def observe (p : Player D) : Player D := { p with observers := p.observers ++ [0] }

def clearLog (p : Player D) : Player D := { p with events := [] }

end Fabula.Player
