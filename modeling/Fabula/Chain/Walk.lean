import Fabula.Chain.Basic
import Fabula.Player.Host

/-!
Walking a chain. A walk passes through subgraph and finish nodes until it comes to a story node or
to the finish of the root graph: a subgraph node is a call, and where its default branch leads is
kept on the stack until the called graph finishes. A chain directs a player.
-/

namespace Fabula

namespace Chain

/-- Return addresses that the stack holds at most. -/
def maxCallDepth : Nat := 256

/-- Nodes that a walk passes at most. -/
def maxTransferHops : Nat := 1024

/-- Where a walk has come. -/
inductive Step where
  /-- On a story node, whose script is to be played. -/
  | story (script : Script)
  /-- Nowhere: the story node has no such branch. -/
  | stay
  /-- At the finish of the root graph. -/
  | ended
deriving DecidableEq

/-- The node at a place; a place after the last node of a graph has none. -/
def nodeAt (c : Chain) (t : Target) : Except ChainError (Option ChainNode) :=
  match c.nodes? t.graph with
  | some nodes => .ok nodes[t.index]?
  | none => .error (.missingGraph t.graph)

/-- Calls a graph from a node whose default branch leads to `resume`. Without such a branch the
call needs no return address. -/
def pushReturn (c : Chain) (resume : Option Target) : Except ChainError Chain :=
  match resume with
  | none => .ok c
  | some t =>
    if maxCallDepth ≤ c.stack.length then .error (.callDepthExceeded maxCallDepth)
    else .ok { c with stack := t :: c.stack }

/-- What a walk meets at a place. -/
inductive Arrival where
  | story (script : Script)
  | call (graph : Uuid) (resume : Option Target)
  | finish

/-- A place after the last node of a graph counts as its finish. -/
def arrival (c : Chain) (t : Target) : Except ChainError Arrival :=
  match c.nodeAt t with
  | .error e => .error e
  | .ok none => .ok .finish
  | .ok (some n) =>
    match n.kind with
    | .story _ script _ => .ok (.story script)
    | .subgraph graph => .ok (.call graph (n.branch? defaultOutlet))
    | .finish => .ok .finish

/-- Moves to a place and on to the next story node or the end, in at most `hops` moves. -/
def enter : Nat → Target → Chain → Except ChainError Step × Chain
  | 0, _, c => (.error (.noProgress maxTransferHops), c)
  | hops + 1, target, c =>
    let c := { c with current := target }
    match c.arrival target with
    | .error e => (.error e, c)
    | .ok (.story script) => (.ok (.story script), c)
    | .ok (.call graph resume) =>
      match c.pushReturn resume with
      | .error e => (.error e, c)
      | .ok c => enter hops ⟨graph, 0⟩ c
    | .ok .finish =>
      match c.stack with
      | [] => (.ok .ended, { c with ended := true })
      | resume :: rest => enter hops resume { c with stack := rest }

/-- Goes back to the first node of the root graph. -/
def reset (c : Chain) : Except ChainError Step × Chain :=
  enter maxTransferHops ⟨c.root, 0⟩ { c with stack := [], ended := false }

/-- Leaves the current node by an outlet. -/
def leaveBy (c : Chain) (outlet : String) : Except ChainError Step × Chain :=
  if c.ended then (.ok .ended, c)
  else match c.nodeAt c.current with
    | .error e => (.error e, c)
    | .ok none => enter maxTransferHops c.current c
    | .ok (some n) =>
      match n.branch? outlet with
      | some target => enter maxTransferHops target c
      | none =>
        match n.kind with
        | .story _ _ _ => (.ok .stay, c)
        | .subgraph graph => enter maxTransferHops ⟨graph, 0⟩ c
        | .finish => enter maxTransferHops c.current c

/-- Leaves the current node by the default outlet. -/
def next (c : Chain) : Except ChainError Step × Chain := c.leaveBy defaultOutlet

def Step.transfer : Step → Transfer
  | story script => .execute script
  | stay => .stay
  | ended => .finish

instance : Director Chain where
  leave c outlet :=
    let (r, c) := c.leaveBy outlet
    (r.map Step.transfer, c)
  finished c :=
    let (r, c) := c.next
    (r.map Step.transfer, c)
  character? c _ key := (c.currentCharacter key).toOption

end Chain

namespace Player

/-- Takes the chain back to its beginning and plays its first story. -/
def start (turns : Nat) (p : Player Chain) : Outcome Chain :=
  let p := p.begin false
  match p.director.reset with
  | (.ok (.story script), c) => drive turns ({ p with director := c }.load script)
  | (.ok _, c) => .done { p with director := c }.finish
  | (.error e, c) => .failed (.chain e) { p with director := c, status := .idle }

end Player

end Fabula
