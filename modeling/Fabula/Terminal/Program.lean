import Fabula.Chain.Build
import Fabula.Chain.Walk
import Fabula.Files.Path
import Fabula.Manifest.Yaml
import Fabula.Terminal.Arguments
import Fabula.Terminal.Help
import Fabula.Terminal.Session

/-!
The program at a terminal: it checks scripts, plays one script, or plays the story of a manifest.
What a request leads to before any input is read is its opening; an opening that holds a session
then takes lines.
-/

namespace Fabula.Terminal

open Script (Compiler)

/-- The extension of script files. -/
def scriptExtension : String := "hamstory"

/-- The name of the script in a file, and its text. -/
def readScript (disk : Disk) (path : String) : Except Report (String × String) :=
  match disk.read path with
  | .ok text => .ok ((Path.fileName? path).getD path, text)
  | .error cause => .error ⟨unreadableScriptText path, [cause.message]⟩

/-- The script files at a path: the file itself, or those in a directory in the order of their
names. -/
def scriptsAt (disk : Disk) (path : String) : Except Report (List String) :=
  match disk.entries? path with
  | none => .ok [path]
  | some (.error cause) => .error ⟨"Failed to list " ++ path, [cause.message]⟩
  | some (.ok names) =>
    let scripts := names.filter (Path.hasExtension scriptExtension)
    .ok ((scripts.mergeSort fun a b => !(b < a)).map (Path.join path))

/-- What checking a compiled script prints. -/
def verdictLines (path : String) : Except Script.CompileError Script → List String
  | .ok script =>
    script.warnings.map (fun w => "warning: " ++ w.message) ++
      ["ok: " ++ path ++ " (" ++ toString script.size ++ " sentences)"]
  | .error e => ["error: " ++ e.message]

/-- Checks a file; the result counts the scripts refused. -/
def checkFile (disk : Disk) (path : String) : Printing Nat :=
  match readScript disk path with
  | .error r => .fail r
  | .ok (name, text) =>
    let verdict := Compiler.standard.compile name text
    ⟨verdictLines path verdict, .ok (if verdict.isOk then 0 else 1)⟩

/-- Runs checks in order and adds up what they count. -/
def addUp (check : String → Printing Nat) : List String → Printing Nat
  | [] => .of 0
  | path :: rest => (check path).andThen fun n => (addUp check rest).andThen fun m => .of (n + m)

def checkPath (disk : Disk) (path : String) : Printing Nat :=
  match scriptsAt disk path with
  | .error r => .fail r
  | .ok files => addUp (checkFile disk) files

/-- Checks scripts, and fails when one is refused. -/
def checkAll (disk : Disk) (paths : List String) : Printing Unit :=
  (addUp (checkPath disk) paths).andThen fun refused =>
    if refused = 0 then .of ()
    else .fail ⟨toString refused ++ " script(s) failed to compile", []⟩

/-- Opens a session that plays one script. -/
def openScript (disk : Disk) (file : String) (settings : List Setting) :
    Printing (Session SingleScript) :=
  match readScript disk file with
  | .error r => .fail r
  | .ok (name, text) =>
    match Compiler.standard.compile name text with
    | .error e => .fail ⟨"this dialogue cannot be shown: " ++ file, [e.message]⟩
    | .ok script =>
      let player := Player.new ⟨none⟩ (Store.ofList settings)
      Session.after .new (player.play Player.patience script false)

/-- The graph where a story begins. -/
def rootGraph? (library : Library) : Option String → Option Graph
  | some name => library.byName? name
  | none => library.graphs.head?

/-- Opens a session that plays a library. -/
def openLibrary (library : Library) (manifest : String) (root : Option String)
    (settings : List Setting) : Printing (Session Chain) :=
  match rootGraph? library root with
  | none => .fail ⟨"no graph to start from in " ++ manifest, []⟩
  | some graph =>
    match Chain.build Compiler.standard library graph.id with
    | .error e => .fail (RunError.chain e).report
    | .ok chain =>
      let player := Player.new chain (Store.ofList settings)
      Session.after .new (player.start Player.patience)

/-- Opens a session that plays the story of a manifest. -/
def openStory (disk : Disk) (manifest : String) (root : Option String)
    (settings : List Setting) : IdSupply.Drawing (Printing (Session Chain)) := do
  match ← Manifest.load disk manifest with
  | .error e => return .fail e.report
  | .ok library => return openLibrary library manifest root settings

/-- What a request leads to before any input is read. -/
inductive Opening where
  | closed (p : Printing Unit)
  | script (p : Printing (Session SingleScript))
  | story (p : Printing (Session Chain))

def Request.opening (disk : Disk) : Request → IdSupply.Drawing Opening
  | .check paths => return .closed (checkAll disk paths)
  | .play file settings => return .script (openScript disk file settings)
  | .graph manifest root settings => return .story (← openStory disk manifest root settings)
  | .version => return .closed ⟨[versionLine], .ok ()⟩
  | .help topic => return .closed ⟨helpLines topic, .ok ()⟩

/-- All that an opening prints for some lines of input. -/
def Opening.printing (input : List (List Char)) : Opening → Printing Unit
  | closed p => p
  | script p => p.andThen fun s => s.feedAll input
  | story p => p.andThen fun s => s.feedAll input

/-- How a run of the program ends. -/
structure Ending where
  code : Nat
  output : String
  errors : String

/-- Lines as text, each with a line end. -/
def joinLines (lines : List String) : String := String.join (lines.map (· ++ "\n"))

def Ending.of (p : Printing Unit) : Ending :=
  match p.result with
  | .ok () => ⟨0, joinLines p.lines, ""⟩
  | .error r => ⟨1, joinLines p.lines, r.write⟩

/-- The ending when the arguments are malformed. -/
def Ending.usage : Ending := ⟨2, "", joinLines usageLines⟩

/-- Runs the program on arguments and lines of input. -/
def run (disk : Disk) (arguments : List String) (input : List (List Char)) :
    IdSupply.Drawing Ending := do
  match Request.ofArguments? arguments with
  | none => return .usage
  | some request => return .of ((← request.opening disk).printing input)

end Fabula.Terminal
