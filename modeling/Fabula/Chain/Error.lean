import Fabula.Script.Diagnostic
import Fabula.Uuid

/-!
What can go wrong while a chain of stories is built or walked.
-/

namespace Fabula

inductive ChainError where
  | missingGraph (graph : Uuid)
  | compile (node : Uuid) (source : Script.CompileError)
  | notAStory
  | unknownCharacter (key : String)
  | callDepthExceeded (limit : Nat)
  | noProgress (transfers : Nat)
deriving DecidableEq

def ChainError.message : ChainError → String
  | missingGraph graph => "graph " ++ toString graph ++ " is not part of the library"
  | compile node _ => "script of node " ++ toString node ++ " failed to compile"
  | notAStory => "current chain node is not a story node"
  | unknownCharacter key => "character '" ++ key ++ "' is not configured on the current story node"
  | callDepthExceeded limit => "subgraph calls nested deeper than " ++ toString limit
  | noProgress transfers => "no story node reached after " ++ toString transfers ++ " transfers"

end Fabula
