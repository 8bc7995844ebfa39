import Fabula.Graph.Edit

/-!
Blueprints: graphs written down with names for nodes. A declaration gives a node a name, a link
joins two names; `start` and `end` name the terminals unless a declaration takes the name.
-/

namespace Fabula

inductive Declaration where
  | story (name : String) (story : StoryNode) (position : Position)
  | subgraph (name : String) (graph : Uuid)

structure Link where
  source : String
  outlet : String
  target : String

structure Blueprint where
  name : String
  id : Option Uuid
  declarations : List Declaration
  links : List Link

namespace Blueprint

/-- What a name stands for, the newest meaning first. -/
abbrev Aliases := List (String × Uuid)

/-- A fresh node under its name. -/
def declare (g : Graph) (aliases : Aliases) (d : Declaration) :
    IdSupply.Drawing (Graph × Aliases) := do
  let id ← IdSupply.fresh
  match d with
  | .story name story position =>
    return ({ g with stories := g.stories ++ [⟨id, position, .story story⟩] },
      (name, id) :: aliases)
  | .subgraph name graph =>
    return ({ g with subgraphs := g.subgraphs ++ [.ofKind id (.subgraph graph)] },
      (name, id) :: aliases)

def declareAll (g : Graph) (aliases : Aliases) :
    List Declaration → IdSupply.Drawing (Graph × Aliases)
  | [] => return (g, aliases)
  | d :: rest => do
    let (g, aliases) ← declare g aliases d
    declareAll g aliases rest

def resolve (aliases : Aliases) (name : String) : Except GraphError Uuid :=
  match aliases.lookup name with
  | some id => .ok id
  | none => .error (.unknownAlias name)

/-- Draws the links in order up to the first that fails. -/
def connectAll (aliases : Aliases) : List Link → Graph → Except GraphError Graph
  | [], g => .ok g
  | link :: rest, g => do
    let source ← resolve aliases link.source
    let target ← resolve aliases link.target
    let (_, g) ← g.connect ⟨source, link.outlet, target, defaultOutlet⟩
    connectAll aliases rest g

def build (b : Blueprint) : IdSupply.Drawing (Except GraphError Graph) := do
  let bare ← Graph.make b.id b.name
  let terminals := [("end", bare.finish.id), ("start", bare.start.id)]
  let (g, aliases) ← declareAll bare terminals b.declarations
  return connectAll aliases b.links g

end Blueprint

end Fabula
