import Fabula.Terminal.Program

/-!
The command line. It reads the files that a request names, prints what the program answers, and
passes the lines of the standard input on to it as they come.
-/

namespace Fabula.Terminal

/-- The cause of a failure to read a file. -/
def readFailure : IO.Error → ReadError
  | .noFileOrDirectory _ _ _ => .notFound
  | .inappropriateType _ code details =>
    if code = 21 then .isDirectory else if code = 20 then .notDirectory else .other details
  | e => .other (toString e)

def readFile (path : String) : IO (Except ReadError String) := do
  try
    match String.fromUTF8? (← IO.FS.readBinFile path) with
    | some text => return .ok text
    | none => return .error .notText
  catch e => return .error (readFailure e)

/-- What was read at each path. -/
abbrev Readings := List (String × Except ReadError String)

def readFiles (paths : List String) : IO Readings :=
  paths.mapM fun path => do return (path, ← readFile path)

/-- Why a directory is not searched for scripts. -/
def unlisted : ReadError := .other "Directories cannot be listed"

/-- The disk as it was read. -/
def diskOf (readings : Readings) : Disk where
  read path := (readings.lookup path).getD (.error .notFound)
  entries? path :=
    match readings.lookup path with
    | some (.error .isDirectory) => some (.error unlisted)
    | _ => none

/-- Reads what a request needs: its files, and the scripts of its manifest. -/
def readDisk : Request → IO Disk
  | .check paths => return diskOf (← readFiles paths)
  | .play file _ => return diskOf (← readFiles [file])
  | .graph path _ _ => do
    let own ← readFiles [path]
    match Manifest.read (diskOf own) path with
    | .error _ => return diskOf own
    | .ok manifest => return diskOf (own ++ (← readFiles (manifest.scriptPaths path)))
  | .version => return diskOf []
  | .help _ => return diskOf []

/-- A supply of ids that starts at random. -/
def freshIds : IO IdSupply := do
  let bytes ← IO.getRandomBytes 16
  return .startingAt (bytes.toList.foldl (fun n b => 256 * n + b.toNat) 0)

def printLines (lines : List String) : IO Unit := do
  let output ← IO.getStdout
  output.putStr (joinLines lines)
  output.flush

/-- Prints, and answers the result; a failure is reported. -/
def perform {α : Type} (p : Printing α) : IO (Option α) := do
  printLines p.lines
  match p.result with
  | .ok a => return some a
  | .error r =>
    (← IO.getStderr).putStr r.write
    return none

/-- Passes lines on while the session waits for them; answers the exit code. -/
partial def converse {D : Type} [Director D] (s : Session D) : IO UInt32 := do
  if !s.waits then return 0
  let line ← (← IO.getStdin).getLine
  if line.isEmpty then return 0
  match ← perform (s.feed ((Text.lines line.toList).headD [])) with
  | some next => converse next
  | none => return 1

def begin {D : Type} [Director D] (p : Printing (Session D)) : IO UInt32 := do
  match ← perform p with
  | some s => converse s
  | none => return 1

def answer (request : Request) : IO UInt32 := do
  let opening := (request.opening (← readDisk request) (← freshIds)).1
  match opening with
  | .closed p => return if (← perform p).isSome then 0 else 1
  | .script p => begin p
  | .story p => begin p

end Fabula.Terminal

def main (arguments : List String) : IO UInt32 := do
  match Fabula.Terminal.Request.ofArguments? arguments with
  | some request => Fabula.Terminal.answer request
  | none =>
    (← IO.getStderr).putStr (Fabula.Terminal.joinLines Fabula.Terminal.usageLines)
    return 2
