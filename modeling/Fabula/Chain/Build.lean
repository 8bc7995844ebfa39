import Fabula.Chain.Basic
import Fabula.Graph.Library
import Fabula.Script.Compiler

/-!
Building a chain. A graph is visited in depth from the node to which the first default connection
of its start node leads; every node gets its place when it is first met, and for each outlet the
first connection counts that leads to a node other than a start. The graphs that subgraph nodes
name are built after it, in the order in which they are met.
-/

namespace Fabula.Chain

open Script (Compiler)

/-- The place of a graph node among the chain nodes built so far. -/
def place? (nodes : List ChainNode) (id : Uuid) : Option Nat :=
  nodes.findIdx? fun n => n.node == id

/-- What a graph node becomes; a start node becomes nothing. -/
def kindOf (compiler : Compiler) (n : Node) : Except ChainError (Option ChainNode.Kind) :=
  match n.kind with
  | .start => .ok none
  | .finish => .ok (some .finish)
  | .subgraph graph => .ok (some (.subgraph graph))
  | .story s =>
    match compiler.compile s.source.name s.source.text with
    | .ok script => .ok (some (.story s.source script s.characters))
    | .error e => .error (.compile n.id e)

def hasBranch (nodes : List ChainNode) (index : Nat) (outlet : String) : Bool :=
  nodes[index]?.any fun n => (n.branch? outlet).isSome

def addBranch (outlet : String) (target : Target) (n : ChainNode) : ChainNode :=
  { n with branches := n.branches ++ [(outlet, target)] }

/-- What a visit answers: the place of the node, if it has one, and all nodes built so far. -/
abbrev Visit := Except ChainError (Option Nat × List ChainNode)

/-- Follows connections that leave the node at `index`. -/
def follow (visit : Uuid → List ChainNode → Visit) (graph : Uuid) (index : Nat) :
    List Connection → List ChainNode → Except ChainError (List ChainNode)
  | [], nodes => .ok nodes
  | c :: rest, nodes =>
    if hasBranch nodes index c.outlet then follow visit graph index rest nodes
    else match visit c.target nodes with
      | .error e => .error e
      | .ok (none, nodes) => follow visit graph index rest nodes
      | .ok (some target, nodes) =>
        follow visit graph index rest (nodes.modify index (addBranch c.outlet ⟨graph, target⟩))

/-- Builds a node and everything reachable from it, unless it was built before; `depth` bounds how
far the visit goes. -/
def visit (compiler : Compiler) (graph : Graph) : Nat → Uuid → List ChainNode → Visit
  | 0, _, nodes => .ok (none, nodes)
  | depth + 1, id, nodes =>
    match place? nodes id with
    | some index => .ok (some index, nodes)
    | none =>
      match graph.node? id with
      | none => .ok (none, nodes)
      | some data =>
        match kindOf compiler data with
        | .error e => .error e
        | .ok none => .ok (none, nodes)
        | .ok (some kind) =>
          let index := nodes.length
          let nodes := nodes ++ [⟨id, kind, []⟩]
          if kind = .finish then .ok (some index, nodes)
          else (follow (visit compiler graph depth) graph.id index (graph.leaving id) nodes).map
            fun nodes => (some index, nodes)

/-- The node to which the first default connection of the start node leads. -/
def firstTarget? (graph : Graph) : Option Uuid :=
  ((graph.leaving graph.start.id).find? Connection.isDefault).map (·.target)

/-- The nodes of one graph. -/
def flatten (compiler : Compiler) (graph : Graph) : Except ChainError (List ChainNode) :=
  match firstTarget? graph with
  | none => .ok []
  | some first => (visit compiler graph (graph.nodes.length + 1) first []).map Prod.snd

/-- The graphs that subgraph nodes name, in order. -/
def references (nodes : List ChainNode) : List Uuid :=
  nodes.filterMap fun n =>
    match n.kind with
    | .subgraph graph => some graph
    | _ => none

/-- The names that are not among `seen`, each once. -/
def unseen (seen : List Uuid) : List Uuid → List Uuid
  | [] => []
  | id :: rest => if id ∈ seen then unseen seen rest else id :: unseen (id :: seen) rest

/-- Builds the graphs of a queue and those they name; `seen` holds all that were ever queued. -/
def flattenAll (compiler : Compiler) (library : Library) :
    Nat → List Uuid → List Uuid → List (Uuid × List ChainNode) →
      Except ChainError (List (Uuid × List ChainNode))
  | _, [], _, done => .ok done
  | 0, _, _, done => .ok done
  | fuel + 1, id :: queue, seen, done =>
    match library.get? id with
    | none => .error (.missingGraph id)
    | some graph =>
      match flatten compiler graph with
      | .error e => .error e
      | .ok nodes =>
        let fresh := unseen seen (references nodes)
        flattenAll compiler library fuel (queue ++ fresh) (seen ++ fresh) (done ++ [(id, nodes)])

/-- The chain of a root graph, with its cursor on the first node. -/
def build (compiler : Compiler) (library : Library) (root : Uuid) : Except ChainError Chain :=
  (flattenAll compiler library (library.size + 1) [root] [root] []).map fun graphs =>
    { root, graphs, stack := [], current := ⟨root, 0⟩, ended := false }

end Fabula.Chain
