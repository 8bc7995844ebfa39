import Fabula.Graph.Edit
import Fabula.Script.Compiler

/-!
The outlets by which nodes are left. A story node has the default outlet and an outlet for every
label that its script jumps to; connections that leave by other outlets are stale.
-/

namespace Fabula.Graph

open Script (Compiler)

/-- The outlets of a kind of node. A script that does not compile adds none. -/
def outletsOf (compiler : Compiler) : NodeKind → List String
  | .finish => []
  | .start => [defaultOutlet]
  | .subgraph _ => [defaultOutlet]
  | .story story =>
    match compiler.compile story.source.name story.source.text with
    | .ok script => defaultOutlet :: script.jumps
    | .error _ => [defaultOutlet]

def outlets (g : Graph) (compiler : Compiler) (id : Uuid) : Except GraphError (List String) :=
  match g.node? id with
  | some n => .ok (outletsOf compiler n.kind)
  | none => .error (.unknownNode id)

def isStale (g : Graph) (compiler : Compiler) (c : Connection) : Bool :=
  match g.outlets compiler c.source with
  | .ok outlets => !outlets.contains c.outlet
  | .error _ => true

/-- Removes the stale connections; the answer counts them. -/
def prune (g : Graph) (compiler : Compiler) : Nat × Graph :=
  let stale := g.connections.filter (g.isStale compiler)
  (stale.length, { g with connections := g.connections.filter fun c => !stale.contains c })

end Fabula.Graph
