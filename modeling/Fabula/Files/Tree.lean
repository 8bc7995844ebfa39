import Fabula.Files.Disk

/-!
A tree of files in memory. Paths are relative to its root, and the directories on the way to a
file exist.
-/

namespace Fabula

inductive TreeFile where
  | text (content : String)
  | notText

structure Tree where
  files : List (List String × TreeFile)
  directories : List (List String)

namespace Tree

def empty : Tree := ⟨[], [[]]⟩

/-- The components of a path. -/
def components (path : String) : List String :=
  (path.toList.splitOn '/').map String.ofList

def isNamed (component : String) : Bool := component != "" && component != "."

/-- Every directory on the way to a place, from the root on. -/
def ancestors (place : List String) : List (List String) :=
  (List.range place.length).map fun n => place.take n

def addFile (t : Tree) (path : String) (file : TreeFile) : Tree :=
  let place := (components path).filter isNamed
  { files := t.files ++ [(place, file)], directories := t.directories ++ ancestors place }

def addDirectory (t : Tree) (path : String) : Tree :=
  let place := (components path).filter isNamed
  { t with directories := t.directories ++ ancestors place ++ [place] }

/-- The place of a component in a directory. -/
def step (t : Tree) (place : List String) (component : String) :
    Except ReadError (List String) :=
  if (t.files.lookup place).isSome then .error .notDirectory
  else if !isNamed component then .ok place
  else if component = ".." then .ok place.dropLast
  else
    let next := place ++ [component]
    if (t.files.lookup next).isSome || t.directories.contains next then .ok next
    else .error .notFound

/-- The place of a path. -/
def resolve (t : Tree) (path : String) : Except ReadError (List String) :=
  if path = "" || path.toList.head? = some '/' then .error .notFound
  else (components path).foldlM t.step []

def read (t : Tree) (path : String) : Except ReadError String :=
  match t.resolve path with
  | .error e => .error e
  | .ok place =>
    match t.files.lookup place with
    | some (.text content) => .ok content
    | some .notText => .error .notText
    | none => .error .isDirectory

/-- The names in a place. -/
def namesIn (t : Tree) (place : List String) : List String :=
  let all := t.files.map Prod.fst ++ t.directories
  ((all.filter fun p => p != [] && p.dropLast == place).filterMap List.getLast?).eraseDups

def entries? (t : Tree) (path : String) : Option (Except ReadError (List String)) :=
  match t.resolve path with
  | .error _ => none
  | .ok place => if (t.files.lookup place).isSome then none else some (.ok (t.namesIn place))

def toDisk (t : Tree) : Disk := ⟨t.read, t.entries?⟩

end Tree

end Fabula
