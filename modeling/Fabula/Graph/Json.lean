import Fabula.Graph.Library
import Fabula.Json.Basic

/-!
Graphs as JSON. A record is written as an object of its fields; reading takes an array of the
fields in order as well, ignores fields that it does not know, and fills in a field that is absent
and has a default. Ids of the graph and its terminals that are absent are drawn afresh.
-/

namespace Fabula

namespace Json

/-- The fields of a record with the given field names. -/
def record? (names : List String) : Json → Option (List (String × Json))
  | obj fields => some fields
  | arr items => if items.length ≤ names.length then some (names.zip items) else none
  | _ => none

/-- A field that must be there. -/
def required {α : Type} (fields : List (String × Json)) (name : String) (read : Json → Option α) :
    Option α :=
  (fields.lookup name).bind read

/-- A field that may be absent, but is read when it is there. -/
def defaulted {α : Type} (fields : List (String × Json)) (name : String) (default : α)
    (read : Json → Option α) : Option α :=
  match fields.lookup name with
  | none => some default
  | some j => read j

def readText : Json → Option String
  | str s => some s
  | _ => none

def readUuid : Json → Option Uuid
  | str s => Uuid.ofString? s
  | _ => none

def readSingle : Json → Option Binary.Single
  | int i => some (.ofInt i)
  | float d => some (.ofDouble d)
  | _ => none

def readList {α : Type} (read : Json → Option α) : Json → Option (List α)
  | arr items => items.mapM read
  | _ => none

end Json

namespace Position

def ofJson? (j : Json) : Option Position := do
  let fields ← j.record? ["x", "y"]
  return ⟨← Json.required fields "x" Json.readSingle, ← Json.required fields "y" Json.readSingle⟩

/-- A coordinate; one that is not finite is null. -/
def coordinate (s : Binary.Single) : Json := (s.toDouble?.map Json.float).getD .null

def toJson (p : Position) : Json := .obj [("x", coordinate p.x), ("y", coordinate p.y)]

end Position

namespace StoryNode

def readCharacter (j : Json) : Option String := do
  let fields ← j.record? ["name"]
  Json.required fields "name" Json.readText

def readSource (j : Json) : Option ScriptSource := do
  let fields ← j.record? ["name", "text"]
  return ⟨← Json.required fields "name" Json.readText, ← Json.required fields "text" Json.readText⟩

def ofFields? (fields : List (String × Json)) : Option StoryNode := do
  return ⟨← Json.required fields "source" readSource,
    ← Json.defaulted fields "characters" [] (Json.readList readCharacter)⟩

def characterToJson (name : String) : Json := .obj [("name", .str name)]

def sourceToJson (s : ScriptSource) : Json := .obj [("name", .str s.name), ("text", .str s.text)]

end StoryNode

namespace Node

/-- The names of the kinds of node, in the order of their numbers. -/
def kindNames : List String := ["Start", "End", "Story", "SubGraph"]

/-- A kind by its name or its number. -/
def readKindName : Json → Option String
  | .str s => if s ∈ kindNames then some s else none
  | .int i => if i < 0 then none else kindNames[i.toNat]?
  | _ => none

def readKind (fields : List (String × Json)) : Option NodeKind := do
  match ← Json.required fields "type" readKindName with
  | "Start" => return .start
  | "End" => return .finish
  | "Story" => return .story (← StoryNode.ofFields? fields)
  | _ => return .subgraph (← Json.required fields "graph" Json.readUuid)

/-- A node is read from an object only; the fields of its kind stand beside its own. -/
def ofJson? : Json → Option Node
  | .obj fields => do
    return ⟨← Json.required fields "id" Json.readUuid,
      ← Json.defaulted fields "position" .origin Position.ofJson?, ← readKind fields⟩
  | _ => none

def toJson (n : Node) : Json :=
  let id : Json := .str (toString n.id)
  let position := n.position.toJson
  match n.kind with
  | .start => .obj [("id", id), ("position", position), ("type", .str "Start")]
  | .finish => .obj [("id", id), ("position", position), ("type", .str "End")]
  | .story s =>
    .obj [("characters", .arr (s.characters.map StoryNode.characterToJson)), ("id", id),
      ("position", position), ("source", StoryNode.sourceToJson s.source), ("type", .str "Story")]
  | .subgraph g =>
    .obj [("graph", .str (toString g)), ("id", id), ("position", position),
      ("type", .str "SubGraph")]

end Node

namespace Connection

def ofJson? (j : Json) : Option Connection := do
  let fields ← j.record? ["from", "from_port", "to", "to_port"]
  return ⟨← Json.required fields "from" Json.readUuid,
    ← Json.defaulted fields "from_port" defaultOutlet Json.readText,
    ← Json.required fields "to" Json.readUuid,
    ← Json.defaulted fields "to_port" defaultOutlet Json.readText⟩

def toJson (c : Connection) : Json :=
  .obj [("from", .str (toString c.source)), ("from_port", .str c.outlet),
    ("to", .str (toString c.target)), ("to_port", .str c.inlet)]

end Connection

namespace Graph

/-- A graph whose own id and terminals may still be missing. -/
structure Sketch where
  id : Option Uuid
  name : String
  start : Option Node
  finish : Option Node
  stories : List Node
  subgraphs : List Node
  connections : List Connection

namespace Sketch

def ofJson? (j : Json) : Option Sketch := do
  let fields ← j.record? ["id", "name", "start", "end", "stories", "subgraphs", "connections"]
  return ⟨← Json.defaulted fields "id" none fun j => (Json.readUuid j).map some,
    ← Json.required fields "name" Json.readText,
    ← Json.defaulted fields "start" none fun j => (Node.ofJson? j).map some,
    ← Json.defaulted fields "end" none fun j => (Node.ofJson? j).map some,
    ← Json.defaulted fields "stories" [] (Json.readList Node.ofJson?),
    ← Json.defaulted fields "subgraphs" [] (Json.readList Node.ofJson?),
    ← Json.defaulted fields "connections" [] (Json.readList Connection.ofJson?)⟩

/-- The node, or a fresh one of the kind. -/
def terminal (kind : NodeKind) : Option Node → IdSupply.Drawing Node
  | some n => return n
  | none => return .ofKind (← IdSupply.fresh) kind

def complete (s : Sketch) : IdSupply.Drawing Graph := do
  let id ← match s.id with
    | some id => pure id
    | none => IdSupply.fresh
  let start ← terminal .start s.start
  let finish ← terminal .finish s.finish
  return { id, name := s.name, start, finish, stories := s.stories, subgraphs := s.subgraphs,
           connections := s.connections }

end Sketch

/-- Reads a graph, with fresh ids for what is absent. -/
def ofJson? (j : Json) : Option (IdSupply.Drawing Graph) := (Sketch.ofJson? j).map Sketch.complete

def toJson (g : Graph) : Json :=
  .obj [("connections", .arr (g.connections.map Connection.toJson)), ("end", g.finish.toJson),
    ("id", .str (toString g.id)), ("name", .str g.name), ("start", g.start.toJson),
    ("stories", .arr (g.stories.map Node.toJson)),
    ("subgraphs", .arr (g.subgraphs.map Node.toJson))]

end Graph

namespace Library

/-- The graphs under their keys, in the order of the keys as they are written. -/
def readEntries : List (String × Json) → Option (List (Uuid × Graph.Sketch))
  | [] => some []
  | (key, j) :: rest => do
    let id ← Uuid.ofString? key
    let sketch ← Graph.Sketch.ofJson? j
    return (id, sketch) :: (← readEntries rest)

/-- Completes the graphs in order; a key that is written twice keeps its first place and its last
graph. -/
def complete : List (Uuid × Graph.Sketch) → Library → IdSupply.Drawing Library
  | [], l => return l
  | (key, sketch) :: rest, l => do
    let g ← sketch.complete
    complete rest ⟨put key g l.entries⟩

def ofJson? (j : Json) : Option (IdSupply.Drawing Library) := do
  let fields ← j.record? ["graphs"]
  let entries ← Json.required fields "graphs" fun
    | .obj entries => readEntries entries
    | _ => none
  return complete entries empty

end Library

end Fabula
