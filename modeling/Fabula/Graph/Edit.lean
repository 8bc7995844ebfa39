import Fabula.Graph.Basic

/-!
Editing a graph. An edit that fails leaves the graph as it was. Connections join nodes of the
graph, no two are equal, and from an outlet other than the default one only one leaves.
-/

namespace Fabula

inductive GraphError where
  | unknownNode (node : Uuid)
  | outletOccupied (node : Uuid) (outlet : String)
  /-- A second start or finish node. -/
  | duplicateTerminal
  | unknownAlias (name : String)
deriving DecidableEq

def GraphError.message : GraphError → String
  | unknownNode node => "node " ++ toString node ++ " is not part of the graph"
  | outletOccupied node outlet =>
    "output port '" ++ outlet ++ "' of node " ++ toString node ++ " is already connected"
  | duplicateTerminal => "a graph has exactly one start and one end node"
  | unknownAlias name => "no node is named '" ++ name ++ "'"

namespace Graph

def addNode (g : Graph) (n : Node) : Except GraphError Graph :=
  match n.kind with
  | .start => .error .duplicateTerminal
  | .finish => .error .duplicateTerminal
  | .story _ => .ok { g with stories := g.stories ++ [n] }
  | .subgraph _ => .ok { g with subgraphs := g.subgraphs ++ [n] }

/-- Adds nodes in order up to the first that fails; those before it stay. -/
def addNodes (g : Graph) : List Node → Option GraphError × Graph
  | [] => (none, g)
  | n :: rest =>
    match g.addNode n with
    | .ok h => h.addNodes rest
    | .error e => (some e, g)

/-- Removes the story and subgraph nodes with an id, and every connection that touches it. The
answer is the first of those nodes. -/
def removeNode (g : Graph) (id : Uuid) : Option (Node × Graph) :=
  let gone (n : Node) : Bool := n.id == id
  ((g.stories.filter gone ++ g.subgraphs.filter gone).head?).map fun first =>
    (first,
      { g with
        stories := g.stories.filter fun n => !gone n
        subgraphs := g.subgraphs.filter fun n => !gone n
        connections := g.connections.filter fun c => !c.touches id })

/-- Removes every story and subgraph node that satisfies `p`, with its connections; the answer
counts them. -/
def removeWhere (g : Graph) (p : Node → Bool) : Nat × Graph :=
  let removed := g.stories.filter p ++ g.subgraphs.filter p
  (removed.length,
    { g with
      stories := g.stories.filter fun n => !p n
      subgraphs := g.subgraphs.filter fun n => !p n
      connections := g.connections.filter fun c => !removed.any fun n => c.touches n.id })

/-- Changes the first node with an id. -/
def updateFirst (id : Uuid) (f : Node → Node) : List Node → List Node
  | [] => []
  | n :: rest => if n.id = id then f n :: rest else n :: updateFirst id f rest

def moveNode (g : Graph) (id : Uuid) (position : Position) : Except GraphError Graph :=
  let move (n : Node) : Node := { n with position }
  if g.start.id = id then .ok { g with start := move g.start }
  else if g.finish.id = id then .ok { g with finish := move g.finish }
  else if g.stories.any fun n => n.id == id then
    .ok { g with stories := updateFirst id move g.stories }
  else if g.subgraphs.any fun n => n.id == id then
    .ok { g with subgraphs := updateFirst id move g.subgraphs }
  else .error (.unknownNode id)

/-- Adds a connection; the answer is false when an equal one is there already. Whatever the answer
is, the graph stands beside it. -/
def tryConnect (g : Graph) (c : Connection) : Except GraphError Bool × Graph :=
  if (g.node? c.source).isNone then (.error (.unknownNode c.source), g)
  else if (g.node? c.target).isNone then (.error (.unknownNode c.target), g)
  else if c ∈ g.connections then (.ok false, g)
  else if !c.isDefault && (g.leaving c.source).any fun d => d.outlet == c.outlet then
    (.error (.outletOccupied c.source c.outlet), g)
  else (.ok true, { g with connections := g.connections ++ [c] })

/-- Adds a connection to a graph that nobody asks for after a failure. -/
def connect (g : Graph) (c : Connection) : Except GraphError (Bool × Graph) :=
  match g.tryConnect c with
  | (.ok added, h) => .ok (added, h)
  | (.error e, _) => .error e

/-- Removes a connection; the answer says whether it was there. -/
def disconnect (g : Graph) (c : Connection) : Bool × Graph :=
  let kept := g.connections.filter fun d => d != c
  (kept.length != g.connections.length, { g with connections := kept })

end Graph

end Fabula
