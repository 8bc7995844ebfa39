import Fabula.Terminal.Arguments

/-!
What the program says about itself.
-/

namespace Fabula.Terminal

def programName : String := "hamstory"

def versionLine : String := programName ++ " 0.1.0"

def Subcommand.about : Subcommand → String
  | .check => "Compile scripts and report diagnostics"
  | .play => "Play a single script in the terminal"
  | .graph => "Play a story graph described by a YAML manifest"

def Subcommand.usage : Subcommand → String
  | .check => "check <PATHS>..."
  | .play => "play [OPTIONS] <FILE>"
  | .graph => "graph [OPTIONS] <MANIFEST>"

def varsLine : String := "  -D, --vars <VARS>  Initial variables (key=value)"

/-- The arguments and options of a subcommand. -/
def Subcommand.details : Subcommand → List String
  | .check =>
    ["Arguments:",
      "  <PATHS>...  Script files, or directories of .hamstory files",
      "", "Options:",
      "  -h, --help  Print help"]
  | .play =>
    ["Arguments:",
      "  <FILE>  Path to the script file",
      "", "Options:", varsLine,
      "  -h, --help         Print help"]
  | .graph =>
    ["Arguments:",
      "  <MANIFEST>  Path to the manifest",
      "", "Options:",
      "      --root <ROOT>  Graph to start from (defaults to the first one in the manifest)",
      varsLine,
      "  -h, --help         Print help"]

def usageLine (form : String) : String := "Usage: " ++ programName ++ " " ++ form

def usageLines : List String :=
  [usageLine "<COMMAND>", "", "For more information, try '--help'."]

def helpLines : Option Subcommand → List String
  | some c => [c.about, "", usageLine c.usage, ""] ++ c.details
  | none =>
    [usageLine "<COMMAND>", "", "Commands:",
      "  check  " ++ Subcommand.check.about,
      "  play   " ++ Subcommand.play.about,
      "  graph  " ++ Subcommand.graph.about,
      "  help   Print this message or the help of the given subcommand(s)",
      "", "Options:",
      "  -h, --help     Print help",
      "  -V, --version  Print version"]

end Fabula.Terminal
