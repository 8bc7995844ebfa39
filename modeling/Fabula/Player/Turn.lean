import Fabula.Condition
import Fabula.Player.Basic
import Fabula.Template

/-!
Turns. In one turn a player executes the sentence at its index, or leaves a branch that has run
into the marker of a sibling, or asks its director what comes after the end of the script. A run
takes turns until a sentence waits for the host, the story ends or an error ends it.
-/

namespace Fabula.Player

open Script (Sentence Call Conditional Branch Say)

variable {D : Type}

/-- Shows a text, its placeholders replaced. -/
def showText (p : Player D) (content : String) : Attempt D :=
  match Template.render? p.store content with
  | some text => .ok (p.shows (.text text))
  | none => .error (.unbalancedBraces content, p)

/-- The truth of a condition. -/
def decide (p : Player D) (expression : String) : Except RunError Bool :=
  match Condition.evaluate? p.store expression with
  | some b => .ok b
  | none => .error (.unknownOperator expression)

def executeSay [Director D] (p : Player D) (line : Say) : Attempt D :=
  let named : Attempt D := if line.speaker = "" then .ok p.clearCharacter
    else p.setCharacter line.speaker line.extra
  named.andThen fun p => p.showText line.text

/-- Where the first of the branches begins whose condition holds. -/
def firstHolding (p : Player D) : List Branch → Except RunError (Option Nat)
  | [] => .ok none
  | branch :: rest =>
    match p.decide branch.condition with
    | .ok true => .ok (some branch.target)
    | .ok false => p.firstHolding rest
    | .error e => .error e

/-- The sentence where control enters a conditional at `own`: the first branch whose condition
holds, else the last branch, else what follows the block. -/
def entry (p : Player D) (own : Nat) (c : Conditional) : Except RunError Nat :=
  match p.decide c.condition with
  | .ok true => .ok (own + 1)
  | .ok false =>
    (p.firstHolding c.branches).map fun target =>
      target.getD (c.otherwise.getD (Script.exitPoint c.exit own))
  | .error e => .error e

def executeConditional (p : Player D) (c : Conditional) : Attempt D :=
  let entered := p.pushScope p.index
  match entered.entry p.index c with
  | .ok target => .ok (entered.goto target)
  | .error e => .error (e, entered)

/-- One call of the command `name`. A guard does nothing by itself. -/
def perform [Director D] (name : String) (p : Player D) : Call → Attempt D
  | .advance => .ok p.advance
  | .goto index => .ok (p.goto index)
  | .jump label => p.leave label
  | .next => p.leave defaultOutlet
  | .push opener => .ok (p.pushScope opener)
  | .pop =>
    let top := match p.scopes.head? with
      | none => "None"
      | some opener => "Some(" ++ toString opener ++ ")"
    p.popScope.showText top
  | .index => p.showText (toString p.index)
  | .character key extra => p.setCharacter key extra
  | .clearCharacter => .ok p.clearCharacter
  | .text content => p.showText content
  | .menu texts => .ok (p.shows (.menu texts))
  | .guard _ => .ok p
  | .fail message => .error (.command message p.index ("[" ++ name ++ "]"), p)
  | .unknown piece =>
    .error (.command ("unknown call '" ++ piece ++ "'") p.index ("[" ++ name ++ "]"), p)

/-- The calls of a command in order. A guard that does not hold ends the command. -/
def performAll [Director D] (name : String) : List Call → Player D → Attempt D
  | [], p => .ok p
  | .guard condition :: rest, p =>
    match p.decide condition with
    | .ok true => performAll name rest p
    | .ok false => .ok p
    | .error e => .error (e, p)
  | call :: rest, p => Attempt.andThen (perform name p call) (performAll name rest)

def execute [Director D] (p : Player D) : Sentence → Attempt D
  | .say line => p.executeSay line
  | .close => .ok p.popScope.advance
  | .menu m => .ok ((p.shows (.menu (m.options.map (·.text)))).pushScope p.index)
  | .conditional c => p.executeConditional c
  | .jump (some label) => p.leave label
  | .jump none => p.leave defaultOutlet
  | .command c => performAll c.name c.steps p
  | .option _ _ => .ok p.advance
  | .branch _ _ => .ok p.advance
  | .otherwise _ => .ok p.advance

/-- Where the innermost open block sends control instead of `current`, if anywhere. -/
def redirect? (p : Player D) (script : Script) (current : Sentence) : Option Nat :=
  p.scopes.head?.bind fun opener =>
    (script.sentence? opener).bind fun scope => scope.redirect opener current

/-- A sentence that has not said where control goes waits for the host. -/
def settle (p : Player D) : Player D :=
  if !p.moved && p.status = .running then { p with status := .suspended } else p

/-- The script has run to its end. -/
def atEnd [Director D] (p : Player D) : Attempt D :=
  match Director.finished p.director with
  | (.ok (.execute script), d) => .ok ({ p with director := d }.load script)
  | (.ok _, d) => .ok { p with director := d }.finish
  | (.error e, d) => .error (.chain e, { p with director := d })

def turn [Director D] (p : Player D) : Attempt D :=
  match p.script with
  | none => .ok p.finish
  | some script =>
    match script.sentence? p.index with
    | none => p.atEnd
    | some current =>
      match p.redirect? script current with
      | some target => .ok { p with index := target }
      | none => (execute { p with moved := false } current).map settle

/-- How a request of the host ends. -/
inductive Outcome (D : Type) where
  | done (p : Player D)
  | failed (e : RunError) (p : Player D)
  /-- The turns granted were used up. -/
  | unfinished (p : Player D)

namespace Outcome

def player : Outcome D → Player D
  | done p => p
  | failed _ p => p
  | unfinished p => p

def error? : Outcome D → Option RunError
  | failed e _ => some e
  | _ => none

end Outcome

/-- Takes turns while the player is running, `turns` of them at most. An error ends the run. -/
def run [Director D] : Nat → Player D → Outcome D
  | 0, p => if p.status = .running then .unfinished p else .done p
  | turns + 1, p =>
    if p.status = .running then
      match p.turn with
      | .ok next => run turns next
      | .error (e, failed) => .failed e failed.abort
    else .done p

end Fabula.Player
