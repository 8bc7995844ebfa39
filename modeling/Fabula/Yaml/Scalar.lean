import Fabula.Json.Parser
import Fabula.Yaml.Cursor

/-!
Scalars as they are written: plain, in single quotes, in double quotes. Inside a scalar a line end
with the blanks around it is folded to a space, and of several line ends all but the first are
kept.
-/

namespace Fabula.Yaml

/-- What stands between two characters of a scalar. Characters are kept last first. -/
inductive Gap where
  | blanks (cs : List Char)
  | folded (breaks : Nat)
  /-- Line ends after one that was escaped. -/
  | continued (breaks : Nat)

namespace Gap

def none : Gap := blanks []

/-- The text of the gap, last character first. -/
def text : Gap → List Char
  | blanks cs => cs
  | folded breaks => if breaks = 1 then [' '] else List.replicate (breaks - 1) '\n'
  | continued breaks => List.replicate breaks '\n'

def addBlank (c : Char) : Gap → Gap
  | blanks cs => blanks (c :: cs)
  | gap => gap

def addBreak : Gap → Gap
  | blanks _ => folded 1
  | folded breaks => folded (breaks + 1)
  | continued breaks => continued (breaks + 1)

/-- Whether the gap spans a line end. -/
def spansLines : Gap → Bool
  | blanks _ => false
  | _ => true

def isEmpty : Gap → Bool
  | blanks [] => true
  | _ => false

end Gap

/-- Characters that structure flow text. -/
def isFlowMark (c : Char) : Bool :=
  c = ',' || c = '[' || c = ']' || c = '\x7b' || c = '\x7d'

/-- Whether a plain scalar may begin here. -/
def startsPlain (flow : Bool) : List Char → Bool
  | [] => false
  | '-' :: rest => !isSpaced rest
  | '?' :: rest => !flow && !isSpaced rest
  | ':' :: rest => !flow && !isSpaced rest
  | c :: _ =>
    !isSpaced [c] && !isFlowMark c &&
      !(['#', '&', '*', '!', '|', '>', '\'', '"', '%', '@', '\x60'].contains c)

/-- Whether a plain scalar ends before this character. -/
def endsPlain (flow : Bool) : List Char → Bool
  | [] => true
  | ':' :: rest => isSpaced rest
  | c :: _ => flow && isFlowMark c

/-- A colon in flow text that neither ends a plain scalar nor belongs to it. -/
def isMisplacedColon (flow : Bool) : List Char → Bool
  | ':' :: c :: _ => flow && (isFlowMark c || c = '?')
  | _ => false

/-- Reads a plain scalar. `stop` is the place after its last character so far, and a line that is
indented less than `floor` is not part of it. -/
def scanPlain (flow : Bool) (floor : Nat) :
    List Char → Gap → Cursor → Nat → Nat → List Char → Option (List Char × Cursor)
  | text, _, stop, _, _, [] => some (text.reverse, stop)
  | text, gap, stop, line, column, c :: rest =>
    if c = '\n' then scanPlain flow floor text gap.addBreak stop (line + 1) 0 rest
    else if c = ' ' || c = '\t' then
      if gap.spansLines && c = '\t' && column < floor then none
      else scanPlain flow floor text (gap.addBlank c) stop line (column + 1) rest
    else
      let fresh := gap.spansLines
      let here : Cursor := ⟨line, column, c :: rest⟩
      if fresh && ((!flow && column < floor) || here.atEnd) then some (text.reverse, stop)
      else if !gap.isEmpty && c = '#' then some (text.reverse, stop)
      else if isMisplacedColon flow (c :: rest) then none
      else if endsPlain flow (c :: rest) then some (text.reverse, stop)
      else
        scanPlain flow floor (c :: (gap.text ++ text)) .none ⟨line, column + 1, rest⟩ line
          (column + 1) rest

/-- Reads the rest of a scalar in single quotes; a quote inside it is written twice. -/
def scanSingle : List Char → Gap → Nat → Nat → List Char → Option (List Char × Cursor)
  | _, _, _, _, [] => none
  | text, gap, line, column, '\'' :: '\'' :: rest =>
    scanSingle ('\'' :: (gap.text ++ text)) .none line (column + 2) rest
  | text, gap, line, column, c :: rest =>
    if c = '\'' then some ((gap.text ++ text).reverse, ⟨line, column + 1, rest⟩)
    else if c = '\n' then scanSingle text gap.addBreak (line + 1) 0 rest
    else if (⟨line, column, c :: rest⟩ : Cursor).atEnd then none
    else if c = ' ' || c = '\t' then scanSingle text (gap.addBlank c) line (column + 1) rest
    else scanSingle (c :: (gap.text ++ text)) .none line (column + 1) rest

/-- The character of an escape of one letter. -/
def unescape? (c : Char) : Option Char :=
  match c with
  | '0' => some '\x00'
  | 'a' => some '\x07'
  | 'b' => some '\x08'
  | 't' => some '\t'
  | '\t' => some '\t'
  | 'n' => some '\n'
  | 'v' => some '\x0b'
  | 'f' => some '\x0c'
  | 'r' => some '\r'
  | 'e' => some '\x1b'
  | ' ' => some ' '
  | '"' => some '"'
  | '/' => some '/'
  | '\\' => some '\\'
  | 'N' => some '\u0085'
  | '_' => some '\u00a0'
  | 'L' => some '\u2028'
  | 'P' => some '\u2029'
  | _ => none

/-- The character with a code point in hexadecimal. -/
def codePoint? (digits : List Char) : Option Char := do
  let value ← digits.foldlM (fun n d => (Json.hexDigit? d).map (16 * n + ·)) 0
  if value < 0xD800 || (0xDFFF < value && value < 0x110000) then some (Char.ofNat value) else none

/-- Reads the rest of a scalar in double quotes, with its escapes. -/
def scanDouble : List Char → Gap → Nat → Nat → List Char → Option (List Char × Cursor)
  | _, _, _, _, [] => none
  | text, gap, line, _, '\\' :: '\n' :: rest =>
    scanDouble (gap.text ++ text) (.continued 0) (line + 1) 0 rest
  | text, gap, line, column, '\\' :: 'x' :: a :: b :: rest =>
    match codePoint? [a, b] with
    | some c => scanDouble (c :: (gap.text ++ text)) .none line (column + 4) rest
    | none => none
  | text, gap, line, column, '\\' :: 'u' :: a :: b :: c :: d :: rest =>
    match codePoint? [a, b, c, d] with
    | some c => scanDouble (c :: (gap.text ++ text)) .none line (column + 6) rest
    | none => none
  | text, gap, line, column, '\\' :: 'U' :: a :: b :: c :: d :: e :: f :: g :: h :: rest =>
    match codePoint? [a, b, c, d, e, f, g, h] with
    | some c => scanDouble (c :: (gap.text ++ text)) .none line (column + 10) rest
    | none => none
  | text, gap, line, column, '\\' :: c :: rest =>
    match unescape? c with
    | some c => scanDouble (c :: (gap.text ++ text)) .none line (column + 2) rest
    | none => none
  | text, gap, line, column, c :: rest =>
    if c = '"' then some ((gap.text ++ text).reverse, ⟨line, column + 1, rest⟩)
    else if c = '\n' then scanDouble text gap.addBreak (line + 1) 0 rest
    else if (⟨line, column, c :: rest⟩ : Cursor).atEnd then none
    else if c = ' ' || c = '\t' then scanDouble text (gap.addBlank c) line (column + 1) rest
    else scanDouble (c :: (gap.text ++ text)) .none line (column + 1) rest

end Fabula.Yaml
