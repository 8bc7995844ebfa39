import Fabula.Proofs.Outline.Basic
import Fabula.Proofs.Player.Turns

/-!
# Playing an outline

The direct meaning of an outline. There are no places and no scopes: to play a part is to play its
sentences in order and then what follows it. What follows is a `Sequel`, the replies to the
requests that are left when a certain log has been shown.
-/

namespace Fabula.Script

open Player (Request speakerEvent)

/-- What a host sees of the end of a request: the status, the error and all that was shown. -/
structure Reply where
  status : Status
  error? : Option RunError
  events : List Event
deriving DecidableEq

/-- How a story goes on: the replies, given what has been shown and the requests that are left. -/
abbrev Sequel := List Event → List Request → List Reply

/-- A story that is over refuses every request. -/
def refused (status : Status) : Sequel := fun shown requests =>
  requests.map fun _ => ⟨status, some .notRunning, shown⟩

def finished : Sequel := fun shown requests =>
  ⟨.finished, none, shown ++ [.visible false]⟩ ::
    refused .finished (shown ++ [.visible false]) requests

def failed (e : RunError) : Sequel := fun shown requests =>
  ⟨.idle, some e, shown⟩ :: refused .idle shown requests

/-- Goes on with the first request that is accepted. -/
def hear (accept : Request → Except RunError Sequel) : Sequel
  | _, [] => []
  | shown, r :: rs =>
    match accept r with
    | .ok next => next shown rs
    | .error e => ⟨.suspended, some e, shown⟩ :: hear accept shown rs

def wait (accept : Request → Except RunError Sequel) : Sequel := fun shown requests =>
  ⟨.suspended, none, shown⟩ :: hear accept shown requests

/-- After a line one can only proceed. -/
def atLine (next : Sequel) : Request → Except RunError Sequel
  | .proceed => .ok next
  | .choose _ => .error .noActiveMenu

/-- At a menu one can choose an option, or pass the options over. -/
def atMenu (count : Nat) (lead : Sequel) (option : Nat → Sequel) :
    Request → Except RunError Sequel
  | .proceed => .ok fun shown => lead (shown ++ [.clearMenu])
  | .choose k =>
    if k < count then .ok fun shown => option k (shown ++ [.clearMenu])
    else .error (.invalidChoice k count)

/-- One of two ways, by a condition. -/
def test (store : Store) (condition : String) (yes no : Sequel) : Sequel :=
  match Condition.evaluate? store condition with
  | some true => yes
  | some false => no
  | none => failed (.unknownOperator condition)

def Options.texts : Options → List String
  | .nil => []
  | .cons text _ rest => text :: rest.texts

mutual

def Body.play (store : Store) : Body → Sequel → Sequel
  | .nil, next => next
  | .say line rest, next => fun shown =>
    match Template.render? store line.text with
    | some text =>
      wait (atLine (rest.play store next)) (shown ++ [speakerEvent line] ++ [.text text])
    | none => failed (.unbalancedBraces line.text) (shown ++ [speakerEvent line])
  | .jump _ rest, next => rest.play store next
  | .menu lead options rest, next => fun shown =>
    wait (atMenu options.texts.length (lead.play store (rest.play store next))
      fun k => options.play store k (rest.play store next)) (shown ++ [.menu options.texts])
  | .conditional condition body branches rest, next =>
    test store condition (body.play store (rest.play store next))
      (branches.play store (rest.play store next))

/-- The body of one option. -/
def Options.play (store : Store) : Options → Nat → Sequel → Sequel
  | .nil, _, next => next
  | .cons _ body _, 0, next => body.play store next
  | .cons _ _ rest, k + 1, next => rest.play store k next

/-- The body of the first branch whose condition holds, or of the last branch, or nothing. -/
def Branches.play (store : Store) : Branches → Sequel → Sequel
  | .nil, next => next
  | .otherwise body, next => body.play store next
  | .cons condition body rest, next =>
    test store condition (body.play store next) (rest.play store next)

end

def Outline.play (store : Store) : Outline → Sequel
  | .body b => b.play store finished
  | .stray before after => before.play store (after.play store)

end Fabula.Script
