import Fabula.Chain.Error
import Fabula.Graph.Basic
import Fabula.Script.Basic

/-!
Chains: the graphs that a story reaches, each flattened into a list of nodes with compiled
scripts, and the cursor that walks them. A branch of a node names the node to which an outlet
leads, by its graph and its place in the list; the stack keeps where to go on after a subgraph.
-/

namespace Fabula

/-- A place in a chain. -/
structure Target where
  graph : Uuid
  index : Nat
deriving DecidableEq

inductive ChainNode.Kind where
  /-- A script with the source it was compiled from, and the names bound to its characters. -/
  | story (source : ScriptSource) (script : Script) (characters : List String)
  | subgraph (graph : Uuid)
  | finish
deriving DecidableEq

structure ChainNode where
  /-- The node of the graph. -/
  node : Uuid
  kind : ChainNode.Kind
  /-- Where the outlets lead, in the order of the connections. -/
  branches : List (String × Target)
deriving DecidableEq

def ChainNode.branch? (n : ChainNode) (outlet : String) : Option Target := n.branches.lookup outlet

structure Chain where
  root : Uuid
  graphs : List (Uuid × List ChainNode)
  /-- Where to go on after each subgraph under way, the innermost first. -/
  stack : List Target
  current : Target
  /-- Whether the finish of the root graph was reached. -/
  ended : Bool
deriving DecidableEq

namespace Chain

/-- The nodes of a graph, if the chain reaches it. -/
def nodes? (c : Chain) (graph : Uuid) : Option (List ChainNode) := c.graphs.lookup graph

def currentNode? (c : Chain) : Option ChainNode :=
  (c.nodes? c.current.graph).bind fun nodes => nodes[c.current.index]?

/-- The script of the current node, when that is a story. -/
def currentScript? (c : Chain) : Option Script :=
  match c.currentNode? with
  | some ⟨_, .story _ script _, _⟩ => some script
  | _ => none

/-- The name bound to a character of the current script. -/
def currentCharacter (c : Chain) (key : String) : Except ChainError String :=
  match c.currentNode? with
  | some ⟨_, .story _ script characters, _⟩ =>
    match (script.characterIndex? key).bind fun i => characters[i]? with
    | some name => .ok name
    | none => .error (.unknownCharacter key)
  | _ => .error .notAStory

end Chain

end Fabula
