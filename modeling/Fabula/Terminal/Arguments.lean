import Fabula.Json.Parser
import Fabula.Text.Split

/-!
What the arguments of the command line ask for. A subcommand comes first. After it, arguments that
start with a hyphen are options, up to a lone double hyphen; all others name files. The value of an
option stands beside it, or in the next argument when that does not look like an option.
-/

namespace Fabula.Terminal

inductive Subcommand where
  | check
  | play
  | graph
deriving DecidableEq, Repr

/-- A variable and its first value. -/
abbrev Setting := String × Json

inductive Request where
  | check (paths : List String)
  | play (file : String) (settings : List Setting)
  /-- Plays the graphs of a manifest from the graph that `root` names, else from the first. -/
  | graph (manifest : String) (root : Option String) (settings : List Setting)
  | version
  /-- Explains a subcommand, or the program. -/
  | help (topic : Option Subcommand)

/-- What an argument looks like. -/
inductive Argument where
  /-- What follows it is never an option. -/
  | divider
  | long (name : List Char) (value : Option (List Char))
  | short (letter : Char) (rest : List Char)
  | plain
deriving DecidableEq

def Argument.ofChars : List Char → Argument
  | ['-', '-'] => .divider
  | '-' :: '-' :: cs =>
    match Text.cutAt '=' cs with
    | some (name, value) => .long name (some value)
    | none => .long cs none
  | '-' :: letter :: rest => .short letter rest
  | _ => .plain

def Argument.of (s : String) : Argument := .ofChars s.toList

/-- The options of the subcommands. -/
inductive Flag where
  | help
  | root
  | vars
deriving DecidableEq

/-- Whether a subcommand has an option. -/
def Subcommand.allows : Subcommand → Flag → Bool
  | _, .help => true
  | .graph, .root => true
  | .play, .vars => true
  | .graph, .vars => true
  | _, _ => false

def Flag.ofName? (name : List Char) : Option Flag :=
  if name = "help".toList then some .help
  else if name = "root".toList then some .root
  else if name = "vars".toList then some .vars
  else none

def Flag.ofLetter? : Char → Option Flag
  | 'h' => some .help
  | 'D' => some .vars
  | _ => none

/-- The arguments of a subcommand read so far. -/
structure Gathered where
  files : List String
  root : Option String
  settings : List Setting

namespace Gathered

def empty : Gathered := ⟨[], none, []⟩

/-- One more file. Only `check` takes several. -/
def addFile? (c : Subcommand) (g : Gathered) (file : String) : Option Gathered :=
  if file = "" || (c != .check && !g.files.isEmpty) then none
  else some { g with files := g.files ++ [file] }

def addFiles? (c : Subcommand) (g : Gathered) (files : List String) : Option Gathered :=
  files.foldlM (addFile? c) g

/-- The value of a variable is JSON, and any other text stands for itself. -/
def readSetting? (cs : List Char) : Option Setting :=
  (Text.cutAt '=' cs).map fun (name, value) =>
    (String.ofList name, (Json.parse? value).getD (.str (String.ofList value)))

/-- The value of an option. A root is given once at most. -/
def set? (g : Gathered) (flag : Flag) (value : List Char) : Option Gathered :=
  match flag with
  | .help => none
  | .root => if g.root.isSome then none else some { g with root := some (String.ofList value) }
  | .vars => (readSetting? value).map fun setting =>
    { g with settings := g.settings ++ [setting] }

/-- What a subcommand that has these arguments asks for. -/
def request? (g : Gathered) : Subcommand → Option Request
  | .check => if g.files.isEmpty then none else some (.check g.files)
  | .play => g.files.head?.map fun file => .play file g.settings
  | .graph => g.files.head?.map fun manifest => .graph manifest g.root g.settings

end Gathered

/-- What an option among the arguments leads to. -/
inductive Effect where
  | help
  /-- The value stands beside the option. -/
  | value (flag : Flag) (value : List Char)
  /-- The value is the next argument. -/
  | awaits (flag : Flag)

/-- The effect of an option that a subcommand has. -/
def Subcommand.effect? (c : Subcommand) : Argument → Option Effect
  | .long name value =>
    match (Flag.ofName? name).filter c.allows, value with
    | some .help, none => some .help
    | some .help, some _ => none
    | some flag, some value => some (.value flag value)
    | some flag, none => some (.awaits flag)
    | none, _ => none
  | .short letter rest =>
    match (Flag.ofLetter? letter).filter c.allows, rest with
    | some .help, _ => some .help
    | some flag, [] => some (.awaits flag)
    | some flag, '=' :: value => some (.value flag value)
    | some flag, value => some (.value flag value)
    | none, _ => none
  | .divider => none
  | .plain => none

/-- The request of a subcommand with arguments; none when they do not fit it. -/
def Subcommand.read? (c : Subcommand) (g : Gathered) : List String → Option Request
  | [] => g.request? c
  | a :: rest =>
    match Argument.of a with
    | .divider => (g.addFiles? c rest).bind fun g => g.request? c
    | .plain => (g.addFile? c a).bind fun g => c.read? g rest
    | option =>
      match c.effect? option with
      | none => none
      | some .help => some (.help (some c))
      | some (.value flag value) => (g.set? flag value).bind fun g => c.read? g rest
      | some (.awaits flag) =>
        match rest with
        | [] => none
        | value :: rest =>
          if Argument.of value = .plain then
            (g.set? flag value.toList).bind fun g => c.read? g rest
          else none

def Subcommand.ofName? : String → Option Subcommand
  | "check" => some .check
  | "play" => some .play
  | "graph" => some .graph
  | _ => none

/-- What help is asked for by name. -/
def helpTopic? : List String → Option Request
  | [] => some (.help none)
  | ["help"] => some (.help none)
  | [name] => (Subcommand.ofName? name).map fun c => .help (some c)
  | _ => none

/-- What the arguments ask for; nothing when they are malformed. -/
def Request.ofArguments? : List String → Option Request
  | [] => none
  | "help" :: rest => helpTopic? rest
  | a :: rest =>
    match Subcommand.ofName? a, Argument.of a with
    | some c, _ => c.read? .empty rest
    | none, .long name none =>
      if name = "help".toList then some (.help none)
      else if name = "version".toList then some .version
      else none
    | none, .short 'h' _ => some (.help none)
    | none, .short 'V' _ => some .version
    | none, _ => none

end Fabula.Terminal
