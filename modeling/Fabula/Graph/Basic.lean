import Fabula.Binary.Double
import Fabula.Uuid

/-!
Story graphs. A graph has a start node and a finish node, story nodes and subgraph nodes, and
connections that lead from an outlet of one node to an inlet of another. The outlets of a story node
are the labels of its jumps and the default outlet, which a script takes when it ends or jumps
without a label. The order of nodes and of connections counts.
-/

namespace Fabula

open Binary (Single)

/-- A place in the editor; it has no effect on play. -/
structure Position where
  x : Single
  y : Single
deriving DecidableEq

namespace Position

def origin : Position := ⟨.zero, .zero⟩

/-- Numeric equality of both coordinates. -/
def same (a b : Position) : Bool := a.x.same b.x && a.y.same b.y

end Position

structure ScriptSource where
  name : String
  text : String
deriving DecidableEq

structure StoryNode where
  source : ScriptSource
  /-- The names bound, by place, to the characters that the script declares. -/
  characters : List String
deriving DecidableEq

inductive NodeKind where
  | start
  | finish
  | story (story : StoryNode)
  /-- Runs another graph. -/
  | subgraph (graph : Uuid)
deriving DecidableEq

structure Node where
  id : Uuid
  position : Position
  kind : NodeKind
deriving DecidableEq

namespace Node

/-- Whether the node marks the start or the finish of a graph. -/
def isTerminal (n : Node) : Bool :=
  match n.kind with
  | .start => true
  | .finish => true
  | _ => false

def isStory (n : Node) : Bool :=
  match n.kind with
  | .story _ => true
  | _ => false

def isSubgraph (n : Node) : Bool :=
  match n.kind with
  | .subgraph _ => true
  | _ => false

def same (a b : Node) : Bool := a.id == b.id && a.position.same b.position && a.kind == b.kind

/-- A node at the origin. -/
def ofKind (id : Uuid) (kind : NodeKind) : Node := ⟨id, .origin, kind⟩

end Node

/-- The label of the outlet that has no name, and of the usual inlet. -/
def defaultOutlet : String := "→"

structure Connection where
  source : Uuid
  outlet : String
  target : Uuid
  /-- Where control enters the target. -/
  inlet : String
deriving DecidableEq

namespace Connection

def isDefault (c : Connection) : Bool := c.outlet == defaultOutlet

/-- Whether one of the two ends is the node. -/
def touches (c : Connection) (id : Uuid) : Bool := c.source == id || c.target == id

end Connection

structure Graph where
  id : Uuid
  name : String
  start : Node
  finish : Node
  stories : List Node
  subgraphs : List Node
  connections : List Connection
deriving DecidableEq

namespace Graph

/-- A graph without nodes of its own, from the ids of the graph and of its terminals. -/
def bare (id start finish : Uuid) (name : String) : Graph :=
  { id, name, start := .ofKind start .start, finish := .ofKind finish .finish, stories := [],
    subgraphs := [], connections := [] }

/-- A new graph with the given id, or with a fresh one. -/
def make (id : Option Uuid) (name : String) : IdSupply.Drawing Graph := do
  let id ← match id with
    | some id => pure id
    | none => IdSupply.fresh
  let start ← IdSupply.fresh
  let finish ← IdSupply.fresh
  return bare id start finish name

/-- Every node: start, finish, the story nodes, the subgraph nodes. -/
def nodes (g : Graph) : List Node := g.start :: g.finish :: (g.stories ++ g.subgraphs)

/-- The first node with an id. -/
def node? (g : Graph) (id : Uuid) : Option Node := g.nodes.find? fun n => n.id == id

/-- The connections that leave a node. -/
def leaving (g : Graph) (id : Uuid) : List Connection :=
  g.connections.filter fun c => c.source == id

/-- The node to which a connection leads. -/
def destination? (g : Graph) (c : Connection) : Option Node :=
  if c.target = g.finish.id then some g.finish else g.node? c.target

def sameNodes : List Node → List Node → Bool
  | [], [] => true
  | a :: as, b :: bs => a.same b && sameNodes as bs
  | _, _ => false

def same (a b : Graph) : Bool :=
  a.id == b.id && a.name == b.name && a.start.same b.start && a.finish.same b.finish &&
    sameNodes a.stories b.stories && sameNodes a.subgraphs b.subgraphs &&
    a.connections == b.connections

theorem node?_id {g : Graph} {id : Uuid} {n : Node} (h : g.node? id = some n) : n.id = id := by
  have hp := List.find?_some h
  exact eq_of_beq hp

theorem node?_isSome_iff {g : Graph} {id : Uuid} :
    (g.node? id).isSome ↔ ∃ n ∈ g.nodes, n.id = id := by
  simp [node?, List.find?_isSome]

end Graph

end Fabula
