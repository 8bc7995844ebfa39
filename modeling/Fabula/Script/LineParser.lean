import Fabula.Script.Draft
import Fabula.Text.Blank
import Fabula.Text.Numeral
import Fabula.Text.Split

/-!
Line parsers. A parser has a header and reads the content of one line into the draft. A keyword
parser is named in square brackets, a leading parser claims the lines that begin with its header.
Besides the built-in parsers there are extensions, which a host registers with a header of its
own and one of the actions below.
-/

namespace Fabula.Script

inductive Style where
  /-- `[Header] content`, in any case. -/
  | keyword
  /-- A line that begins with the header. -/
  | leading
deriving DecidableEq, Repr

inductive Builtin where
  | char
  | close
  | menu
  | menuItem
  | ifBlock
  | elif
  | otherwise
  | jump
  | say
deriving DecidableEq, Repr

/-- What an extension does with the content of a line. -/
inductive Action where
  | skip
  | fail
  | warn
  /-- Narrate the content in capitals. -/
  | upper
  | say
  | char
  | jump
  /-- Narrate what the draft looks like. -/
  | probe
  /-- A command that waits for a number of milliseconds. -/
  | wait
  /-- A command whose calls are the content. -/
  | command
deriving DecidableEq, Repr

structure Extension where
  style : Style
  header : String
  action : Action
deriving DecidableEq, Repr

inductive LineParser where
  | builtin (b : Builtin)
  | extension (e : Extension)
deriving DecidableEq, Repr

def Builtin.header : Builtin → String
  | char => "Char"
  | close => "/"
  | menu => "Menu"
  | menuItem => "-"
  | ifBlock => "If"
  | elif => "Elif"
  | otherwise => "Else"
  | jump => "Jump"
  | say => ""

def Builtin.style : Builtin → Style
  | close => .leading
  | menuItem => .leading
  | say => .leading
  | _ => .keyword

namespace LineParser

def header : LineParser → String
  | builtin b => b.header
  | extension e => e.header

def style : LineParser → Style
  | builtin b => b.style
  | extension e => e.style

/-- Whether a text begins with another when the case of ASCII letters is ignored. -/
def startsWith : List Char → List Char → Bool
  | [], _ => true
  | _ :: _, [] => false
  | h :: header, c :: line => h.toLower == c.toLower && startsWith header line

/-- Whether a leading parser claims the line. The dialogue parser takes every line with a colon. -/
def claims (p : LineParser) (line : List Char) : Bool :=
  match p with
  | builtin .say => line.contains ':'
  | _ => startsWith p.header.toList line

/-- The line after the header. -/
def content (p : LineParser) (line : List Char) : List Char := line.drop p.header.length

end LineParser

/-- Text after a header that takes none is only warned about. -/
def ignoreContent (header : String) (content : List Char) (d : Draft) : Draft :=
  if content = [] then d else d.warn (.ignoredText header (String.ofList content))

/-- The innermost conditional that is still open. -/
def openConditional? (d : Draft) : Option Nat := d.searchBack? Sentence.isOpenConditional

/-- `Name(extra)` in its two parts. Parentheses that do not match are only warned about. -/
def splitExtra (host : List Char) (d : Draft) : List Char × List Char × Draft :=
  match Text.dropLast? ')' host with
  | some inner =>
    match Text.cutAt '(' inner with
    | some (name, extra) => (Text.trim name, Text.trim extra, d)
    | none => (host, [], d.warn (.strayParenthesis (String.ofList host)))
  | none =>
    if host.contains '(' then (host, [], d.warn (.unclosedParenthesis (String.ofList host)))
    else (host, [], d)

def parseChar (content : List Char) (d : Draft) : Draft :=
  let names := (content.splitOn ',').map Text.trim
  (names.filter fun name => !name.isEmpty).foldl
    (fun d name => d.addCharacter (String.ofList name)) d

def parseClose (content : List Char) (d : Draft) : Draft :=
  let d := ignoreContent "/" content d
  let exit := d.size
  match d.searchBack? Sentence.isOpen with
  | some opener => (d.push .close).update opener (Sentence.closeAt exit)
  | none => (d.push .close).warn .nothingToClose

def parseMenu (content : List Char) (d : Draft) : Draft :=
  (ignoreContent "Menu" content d).push (.menu ⟨[], none⟩)

def parseMenuItem (content : List Char) (d : Draft) : Except ParseError Draft :=
  let text := String.ofList content
  if content = [] then .error .emptyMenuOption
  else match d.searchBack? Sentence.isOpenMenu with
    | none => .error (.optionOutsideMenu text)
    | some menu => .ok ((d.update menu (Sentence.addOption text (d.size + 1))).push
        (.option text menu))

def parseIf (content : List Char) (d : Draft) : Except ParseError Draft :=
  if content = [] then .error (.emptyCondition "If")
  else .ok (d.push (.conditional ⟨String.ofList content, [], none, none⟩))

/-- Whether the sentence at an index is a conditional that has its last branch. -/
def hasOtherwiseAt (d : Draft) (index : Nat) : Bool :=
  (d.sentence? index).any Sentence.hasOtherwise

def parseElif (content : List Char) (d : Draft) : Except ParseError Draft :=
  let condition := String.ofList content
  if content = [] then .error (.emptyCondition "Elif")
  else match openConditional? d with
    | none => .error (.noOpenIf "Elif")
    | some owner =>
      if hasOtherwiseAt d owner then .error (.elseAlreadyDefined "Elif")
      else .ok ((d.update owner (Sentence.addBranch condition (d.size + 1))).push
        (.branch condition owner))

def parseElse (content : List Char) (d : Draft) : Except ParseError Draft :=
  let d := ignoreContent "Else" content d
  match openConditional? d with
  | none => .error (.noOpenIf "Else")
  | some owner =>
    if hasOtherwiseAt d owner then .error (.elseAlreadyDefined "Else")
    else .ok ((d.update owner (Sentence.setOtherwise (d.size + 1))).push (.otherwise owner))

def parseJump (content : List Char) (d : Draft) : Draft :=
  let label := String.ofList content
  if content = [] then d.push (.jump none) else (d.addJump label).push (.jump (some label))

/-- `Speaker(extra): text`, `Speaker: text` or `: narration`. A line without a colon says
nothing. -/
def parseSay (content : List Char) (d : Draft) : Draft :=
  match Text.cutAt ':' content with
  | none => d
  | some (host, text) =>
    let (name, extra, d) := splitExtra (Text.trim host) d
    let speaker := String.ofList name
    let d := if name = [] ∨ speaker ∈ d.characters then d
      else d.warn (.undeclaredCharacter speaker)
    d.push (.say ⟨speaker, String.ofList extra, String.ofList (Text.trim text)⟩)

def Builtin.parse (b : Builtin) (content : List Char) (d : Draft) : Except ParseError Draft :=
  match b with
  | char => .ok (parseChar content d)
  | close => .ok (parseClose content d)
  | menu => .ok (parseMenu content d)
  | menuItem => parseMenuItem content d
  | ifBlock => parseIf content d
  | elif => parseElif content d
  | otherwise => parseElse content d
  | jump => .ok (parseJump content d)
  | say => .ok (parseSay content d)

/-- The text that `Action.probe` narrates. -/
def probe (content : List Char) (d : Draft) : String :=
  let flag (b : Bool) : String := if b then "true" else "false"
  let place : Option Nat → String
    | none => "None"
    | some i => "Some(" ++ toString i ++ ")"
  String.intercalate "|"
    [d.source, toString d.line, toString d.size, flag d.entries.isEmpty,
      flag (d.characters.contains (String.ofList content)),
      place (d.searchBack? Sentence.isOpen), place (d.searchBack? Sentence.isSay)]

/-- The command of `Action.wait`. -/
def waitCommand (name : String) (milliseconds : Nat) : Command :=
  ⟨name, if milliseconds = 0 then "fail cannot wait for 0 ms" else "advance"⟩

def narration (text : String) : Sentence := .say ⟨"", "", text⟩

def Extension.parse (e : Extension) (content : List Char) (d : Draft) :
    Except ParseError Draft :=
  let text := String.ofList content
  match e.action with
  | .skip => .ok d
  | .fail => .error (.custom text)
  | .warn => .ok (d.warn (.custom text))
  | .upper => .ok (d.push (narration (String.ofList (content.map Char.toUpper))))
  | .say => .ok (parseSay content d)
  | .char => .ok (d.addCharacter text)
  | .jump => .ok (d.addJump text)
  | .probe => .ok (d.push (narration (probe content d)))
  | .wait =>
    match Text.readUnsigned? (twoTo 32) content with
    | some n => .ok (d.push (.command (waitCommand e.header n)))
    | none => .error (.custom ("'" ++ text ++ "' is not a duration"))
  | .command => .ok (d.push (.command ⟨e.header, text⟩))

def LineParser.parse (p : LineParser) (content : List Char) (d : Draft) :
    Except ParseError Draft :=
  match p with
  | builtin b => b.parse content d
  | extension e => e.parse content d

end Fabula.Script
