import Fabula.Files.Disk
import Fabula.Files.Path
import Fabula.Graph.Blueprint
import Fabula.Graph.Library
import Fabula.Report

/-!
Manifests: the graphs of a story written down under names, with scripts named by their files.
Loading the library that one describes, graphs get fresh ids and keep their order; a subgraph names
its graph, and a script is read from a file beside the manifest. The language that a manifest is
written in is up to its reader.
-/

namespace Fabula

namespace Manifest

inductive Entry where
  | story (id script : String) (characters : List String) (position : Option Position)
  | subgraph (id graph : String)
deriving DecidableEq

structure Section where
  name : String
  entries : List Entry
  links : List Link

end Manifest

structure Manifest where
  graphs : List Manifest.Section

inductive LoadError where
  | unreadableManifest (path : String) (cause : ReadError)
  | malformedManifest (path : String)
  | duplicateGraph (name path : String)
  | unreadableScript (node graph path : String) (cause : ReadError)
  | unknownGraph (node graph target : String)
  | invalidGraph (name path : String) (cause : GraphError)

/-- What was attempted when a script could not be read. -/
def unreadableScriptText (path : String) : String := "Failed to read script from " ++ path

def LoadError.report : LoadError → Report
  | unreadableManifest path cause => ⟨"Failed to read manifest from " ++ path, [cause.message]⟩
  | malformedManifest path => ⟨"Failed to deserialize manifest " ++ path, []⟩
  | duplicateGraph name path => ⟨"graph '" ++ name ++ "' is defined twice in " ++ path, []⟩
  | unreadableScript node graph path cause =>
    ⟨"story node '" ++ node ++ "' of graph '" ++ graph ++ "'",
      [unreadableScriptText path, cause.message]⟩
  | unknownGraph node graph target =>
    ⟨"node '" ++ node ++ "' of graph '" ++ graph ++ "' references unknown graph '" ++ target ++
      "'", []⟩
  | invalidGraph name path cause => ⟨"Invalid graph '" ++ name ++ "' in " ++ path, [cause.message]⟩

namespace Manifest

/-- The ids of the graphs by name. -/
abbrev GraphIds := List (String × Uuid)

/-- Fresh ids for graphs, up to a name that stands twice. -/
def assignIds (path : String) :
    List Section → GraphIds → IdSupply.Drawing (Except LoadError GraphIds)
  | [], ids => return .ok ids
  | s :: rest, ids => do
    let id ← IdSupply.fresh
    if (ids.lookup s.name).isSome then return .error (.duplicateGraph s.name path)
    else assignIds path rest (ids ++ [(s.name, id)])

/-- A node as a declaration, its script read from the disk. -/
def declare (disk : Disk) (base : String) (ids : GraphIds) (graph : String) :
    Entry → Except LoadError Declaration
  | .story id script characters position =>
    let path := Path.join base script
    match disk.read path with
    | .error cause => .error (.unreadableScript id graph path cause)
    | .ok text => .ok (.story id ⟨⟨script, text⟩, characters⟩ (position.getD .origin))
  | .subgraph id target =>
    match ids.lookup target with
    | some graphId => .ok (.subgraph id graphId)
    | none => .error (.unknownGraph id graph target)

def declareAll (disk : Disk) (base : String) (ids : GraphIds) (graph : String) :
    List Entry → Except LoadError (List Declaration)
  | [] => .ok []
  | entry :: rest => do
    let d ← declare disk base ids graph entry
    return d :: (← declareAll disk base ids graph rest)

/-- Builds the graphs in order and adds them to a library. -/
def buildAll (disk : Disk) (path : String) (ids : GraphIds) :
    List Section → Library → IdSupply.Drawing (Except LoadError Library)
  | [], library => return .ok library
  | s :: rest, library =>
    match declareAll disk (Path.parent path) ids s.name s.entries with
    | .error e => return .error e
    | .ok declarations => do
      match ← Blueprint.build ⟨s.name, ids.lookup s.name, declarations, s.links⟩ with
      | .error cause => return .error (.invalidGraph s.name path cause)
      | .ok graph => buildAll disk path ids rest (library.insert graph)

/-- The library of a manifest that was read from `path`. -/
def build (disk : Disk) (path : String) (m : Manifest) :
    IdSupply.Drawing (Except LoadError Library) := do
  match ← assignIds path m.graphs [] with
  | .error e => return .error e
  | .ok ids => buildAll disk path ids m.graphs .empty

/-- What makes a manifest of a text, if the text is one. -/
abbrev Reader := String → Option Manifest

/-- Reads the manifest at a path. -/
def readWith (reader : Reader) (disk : Disk) (path : String) : Except LoadError Manifest :=
  match disk.read path with
  | .error cause => .error (.unreadableManifest path cause)
  | .ok text =>
    match reader text with
    | none => .error (.malformedManifest path)
    | some m => .ok m

/-- The library of the manifest at a path. -/
def loadWith (reader : Reader) (disk : Disk) (path : String) :
    IdSupply.Drawing (Except LoadError Library) := do
  match readWith reader disk path with
  | .error e => return .error e
  | .ok m => build disk path m

/-- The files that loading a manifest reads beside it. -/
def scriptPaths (path : String) (m : Manifest) : List String :=
  m.graphs.flatMap fun s => s.entries.filterMap fun
    | .story _ script _ _ => some (Path.join (Path.parent path) script)
    | .subgraph _ _ => none

end Manifest

end Fabula
