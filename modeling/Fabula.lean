import Fabula.Text.Blank
import Fabula.Text.Split
import Fabula.Text.Lines
import Fabula.Text.Numeral
import Fabula.Text.Lowercase
import Fabula.Text.Quoted
import Fabula.Binary.Shortest
import Fabula.Binary.Literal
import Fabula.Json.Parser
import Fabula.Json.Printer
import Fabula.Uuid
import Fabula.Template
import Fabula.Condition
import Fabula.Files.Tree
import Fabula.Manifest.Yaml
import Fabula.Chain.Build
import Fabula.Chain.Walk
import Fabula.Graph.Outlets
import Fabula.Graph.Blueprint
import Fabula.Graph.Json
import Fabula.Script.Compiler
import Fabula.Terminal.Program
import Fabula.Main
import Fabula.Proofs.Player.Overtaking
import Fabula.Proofs.Outline.Simulation
import Fabula.Proofs.Chain.Calls
import Fabula.Proofs.Player.Returning
import Fabula.Proofs.Player.Pauses
import Fabula.Proofs.Player.Astray
import Fabula.Proofs.Script.Acceptance
import Fabula.Proofs.Script.Written
import Fabula.Proofs.Player.Alone
import Fabula.Proofs.Player.Display
import Fabula.Proofs.Player.Tour
import Fabula.Proofs.Graph.Register
import Fabula.Proofs.Script.Unmatched
import Fabula.Proofs.Script.Layout
import Fabula.Proofs.Player.Speakers
import Fabula.Proofs.Player.Completion
import Fabula.Proofs.Chain.Filing
import Fabula.Proofs.Player.Interchange
import Fabula.Proofs.Manifest.Closed
import Fabula.Proofs.Player.Pruned
import Fabula.Proofs.Condition.Literals
import Fabula.Proofs.Template.Fragments
import Fabula.Proofs.Chain.Dangling
import Fabula.Proofs.Script.Extensions
import Fabula.Proofs.Graph.Connecting
import Fabula.Proofs.Graph.Removal
import Fabula.Proofs.Manifest.Aliases
import Fabula.Proofs.Graph.ReadBack
import Fabula.Proofs.Terminal.Resuming
