import Fabula.Chain.Error

/-!
What can go wrong while a script is played.
-/

namespace Fabula

inductive RunError where
  /-- The speaker of the sentence at `index` stands for nobody. -/
  | unknownCharacter (key : String) (index : Nat) (sentence : String)
  | unknownOperator (expression : String)
  | unbalancedBraces (content : String)
  | noActiveMenu
  | invalidChoice (chosen available : Nat)
  | notRunning
  /-- A command failed. -/
  | command (message : String) (index : Nat) (sentence : String)
  | chain (e : ChainError)
deriving DecidableEq

namespace RunError

/-- A message with the place where it arose. -/
def placed (message : String) (index : Nat) (sentence : String) : String :=
  message ++ " (at #" ++ toString index ++ " " ++ sentence ++ ")"

def message : RunError → String
  | unknownCharacter key index sentence =>
    placed ("character '" ++ key ++ "' is not bound") index sentence
  | unknownOperator expression =>
    "no comparison operator found in '" ++ expression ++ "' (supported: == != >= <= > <)"
  | unbalancedBraces content => "unbalanced braces in '" ++ content ++ "'"
  | noActiveMenu => "there is no open menu to choose from"
  | invalidChoice chosen available =>
    "menu has " ++ toString available ++ " options, option " ++ toString chosen ++
      " does not exist"
  | notRunning => "nothing is executing"
  | command text index sentence => placed text index sentence
  | chain e => e.message

end RunError

end Fabula
