import Fabula.Text.Quoted

/-!
What compiling a script can report: errors, which end it at a line, and warnings, which are kept
with the compiled script.
-/

namespace Fabula.Script

/-- Why a line is refused. -/
inductive ParseError where
  | unknownKeyword (keyword : String)
  | unclosedBracket
  | emptyCondition (header : String)
  | emptyMenuOption
  | optionOutsideMenu (text : String)
  | noOpenIf (header : String)
  | elseAlreadyDefined (header : String)
  /-- Refused by an extension. -/
  | custom (message : String)
deriving DecidableEq, Repr

def ParseError.message : ParseError → String
  | unknownKeyword keyword => "unknown keyword [" ++ keyword ++ "]"
  | unclosedBracket => "square bracket is never closed"
  | emptyCondition header => "[" ++ header ++ "] requires a condition"
  | emptyMenuOption => "menu option has no text"
  | optionOutsideMenu text => "menu option \"" ++ text ++ "\" must be placed inside a [Menu]"
  | noOpenIf header => "[" ++ header ++ "] must follow an open [If] or [Elif]"
  | elseAlreadyDefined header =>
    "[" ++ header ++ "] cannot follow the [Else] of the same [If]"
  | custom message => message

/-- The first refused line of a script; lines are counted from 1. -/
structure CompileError where
  source : String
  line : Nat
  kind : ParseError
deriving DecidableEq, Repr

/-- A text at a line of a source. -/
def located (source : String) (line : Nat) (message : String) : String :=
  source ++ " line " ++ toString line ++ ": " ++ message

def CompileError.message (e : CompileError) : String := located e.source e.line e.kind.message

/-- What is doubtful about a line that is accepted. -/
inductive Warning where
  /-- Several leading marks match; the first registered wins. -/
  | ambiguous (used : String) (others : List String)
  | ignoredText (header content : String)
  | nothingToClose
  /-- The block that this sentence opens has no closer. -/
  | neverClosed (opener : String)
  | undeclaredCharacter (speaker : String)
  | strayParenthesis (host : String)
  | unclosedParenthesis (host : String)
  /-- Raised by an extension. -/
  | custom (message : String)
deriving DecidableEq, Repr

def Warning.message : Warning → String
  | ambiguous used others =>
    "line matches several prefix parsers, using '" ++ used ++ "' over " ++ Text.quotedList others
  | ignoredText header content => "text after [" ++ header ++ "] is ignored: '" ++ content ++ "'"
  | nothingToClose => "this '/' has no open block to close"
  | neverClosed opener => opener ++ " is never closed, add a '/' after its block"
  | undeclaredCharacter speaker =>
    "character '" ++ speaker ++ "' is not declared, add it to a [Char] line"
  | strayParenthesis host => "speaker '" ++ host ++ "' has ')' without a matching '('"
  | unclosedParenthesis host => "speaker '" ++ host ++ "' has '(' without a matching ')'"
  | custom message => message

structure Diagnostic where
  source : String
  line : Nat
  warning : Warning
deriving DecidableEq, Repr

namespace Diagnostic

def message (d : Diagnostic) : String := located d.source d.line d.warning.message

/-- The same place and the same text. -/
def same (a b : Diagnostic) : Bool :=
  a.source == b.source && a.line == b.line && a.warning.message == b.warning.message

end Diagnostic

end Fabula.Script
