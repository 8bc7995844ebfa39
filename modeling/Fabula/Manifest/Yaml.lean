import Fabula.Manifest.Loader
import Fabula.Yaml.Parser
import Fabula.Yaml.Value

/-!
Manifests written in YAML. Reading one answers nothing when a field is missing, stands twice or has
the wrong type; fields that are not known do not matter. Of YAML the reader takes what manifests are
usually written in: a text with block scalars, anchors, tags, directives or explicit keys it does
not read.
-/

namespace Fabula

namespace Manifest

/-- The value of a field that stands at most once. -/
def once? (fields : List (String × Yaml)) (name : String) : Option (Option Yaml) :=
  match fields.filter fun field => field.1 == name with
  | [] => some none
  | [field] => some (some field.2)
  | _ => none

/-- A field that must be there. -/
def required {α : Type} (fields : List (String × Yaml)) (name : String) (read : Yaml → Option α) :
    Option α := do
  read (← ← once? fields name)

/-- A field that may be absent. -/
def defaulted {α : Type} (fields : List (String × Yaml)) (name : String) (default : α)
    (read : Yaml → Option α) : Option α := do
  match ← once? fields name with
  | none => some default
  | some y => read y

/-- The fields of a record; a record of which nothing is written has none. -/
def record? : Yaml → Option (List (String × Yaml))
  | .map entries => entries.mapM fun (key, value) => key.rawText?.map fun name => (name, value)
  | .scalar false "" => some []
  | _ => none

/-- A sequence; one of which nothing is written is empty. -/
def list? {α : Type} (read : Yaml → Option α) : Yaml → Option (List α)
  | .seq items => items.mapM read
  | .scalar false "" => some []
  | _ => none

/-- A text that may be null. -/
def optionalText? : Yaml → Option (Option String)
  | .scalar true s => some (some s)
  | .scalar false s => some (if Yaml.isNullWord s then none else some s)
  | _ => none

def readLink (y : Yaml) : Option Link := do
  let fields ← record? y
  let source ← required fields "from" Yaml.rawText?
  let outlet ← defaulted fields "port" none optionalText?
  let target ← required fields "to" Yaml.rawText?
  return ⟨source, outlet.getD defaultOutlet, target⟩

def coordinate? (y : Yaml) : Option Binary.Single :=
  match y.value? with
  | some (.int i) => some (.ofInt i)
  | some (.float d) => some (.ofDouble d)
  | some (.infinite negative) => some (.infinity negative)
  | some .notANumber => some .notANumber
  | _ => none

/-- Two coordinates, or null. -/
def position? : Yaml → Option (Option Position)
  | .seq [x, y] => do return some ⟨← coordinate? x, ← coordinate? y⟩
  | .seq _ => none
  | y => if y.value? = some .null then some none else none

def names? : Yaml → Option (List String)
  | .seq items => items.mapM Yaml.text?
  | _ => none

def storyFields : List String := ["id", "script", "characters", "position"]

def subgraphFields : List String := ["id", "graph"]

/-- An entry of the kind `type` from its other fields. -/
def entryOf? (type : String) (fields : List (String × Yaml)) : Option Entry :=
  match type with
  | "story" => do
    return .story (← required fields "id" Yaml.text?) (← required fields "script" Yaml.text?)
      (← defaulted fields "characters" [] names?) (← defaulted fields "position" none position?)
  | "subgraph" => do
    return .subgraph (← required fields "id" Yaml.text?) (← required fields "graph" Yaml.text?)
  | _ => none

/-- The names of the fields of a kind of entry, in order. -/
def fieldsOf (type : String) : List String :=
  if type = "story" then storyFields else subgraphFields

/-- The name of a field from its key, which may be its number. A number that is too great names no
field. -/
def fieldName? (names : List String) (key : Yaml) : Option String :=
  match key.value? with
  | some (.text s) => some s
  | some (.int i) => if i < 0 then none else some (names[i.toNat]?.getD "")
  | _ => none

/-- The kind of an entry stands beside its fields, or before them in a sequence. -/
def readEntry (y : Yaml) : Option Entry :=
  if !y.isSettled then none
  else match y with
    | .map entries => do
      let isType (entry : Yaml × Yaml) : Bool := entry.1.text? = some "type"
      match entries.filter isType with
      | [(_, kind)] =>
        let type ← kind.rawText?
        let rest := entries.filter fun entry => !isType entry
        let fields ← rest.mapM fun (key, value) =>
          (fieldName? (fieldsOf type) key).map fun name => (name, value)
        entryOf? type fields
      | _ => none
    | .seq (kind :: values) => do
      let type ← kind.rawText?
      let names := fieldsOf type
      if values.length ≤ names.length then entryOf? type (names.zip values) else none
    | _ => none

def readSection (y : Yaml) : Option Section := do
  let fields ← record? y
  return ⟨← required fields "name" Yaml.rawText?,
    ← defaulted fields "nodes" [] (list? readEntry),
    ← defaulted fields "connections" [] (list? readLink)⟩

def ofYaml? (y : Yaml) : Option Manifest := do
  let fields ← record? y
  return ⟨← required fields "graphs" (list? readSection)⟩

/-- The manifest in a text. -/
def ofText? (text : String) : Option Manifest := (Yaml.parse? text.toList).bind ofYaml?

/-- Reads the manifest at a path. -/
def read (disk : Disk) (path : String) : Except LoadError Manifest := readWith ofText? disk path

/-- The library of the manifest at a path. -/
def load (disk : Disk) (path : String) : IdSupply.Drawing (Except LoadError Library) :=
  loadWith ofText? disk path

end Manifest

end Fabula
