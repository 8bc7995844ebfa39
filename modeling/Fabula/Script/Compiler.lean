import Fabula.Script.LineParser
import Fabula.Text.Lines
import Fabula.Text.Lowercase

/-!
Compiling a script line by line. A line in brackets goes to the parser of its keyword, any other
line to the first leading parser that claims it, and a line that nobody claims to the fallback.
Blank lines and blanks at the ends of a line do not count.
-/

namespace Fabula.Script

structure Compiler where
  /-- Keyword parsers under their headers in lower case, the newest first. -/
  keywords : List (List Char × LineParser)
  /-- Leading parsers in the order of their registration. -/
  leading : List LineParser
  fallback : LineParser
deriving DecidableEq, Repr

namespace Compiler

/-- Understands dialogue lines only. -/
def empty : Compiler := ⟨[], [], .builtin .say⟩

/-- Adds a parser. A keyword parser takes the place of one with the same header. -/
def register (c : Compiler) (p : LineParser) : Compiler :=
  match p.style with
  | .keyword => { c with keywords := (Text.lowercase p.header.toList, p) :: c.keywords }
  | .leading => { c with leading := c.leading ++ [p] }

def withFallback (c : Compiler) (p : LineParser) : Compiler := { c with fallback := p }

/-- Every built-in parser but dialogue, which is the fallback. -/
def builtins : List Builtin :=
  [.char, .close, .menu, .menuItem, .ifBlock, .elif, .otherwise, .jump]

def standard : Compiler := builtins.foldl (fun c b => c.register (.builtin b)) empty

def keyword? (c : Compiler) (keyword : List Char) : Option LineParser :=
  c.keywords.lookup (Text.lowercase keyword)

/-- A line `[keyword] content`, given without its first bracket. -/
def readKeyword (c : Compiler) (rest : List Char) (d : Draft) : Except ParseError Draft :=
  match Text.cutAt ']' rest with
  | none => .error .unclosedBracket
  | some (keyword, content) =>
    match c.keyword? keyword with
    | none => .error (.unknownKeyword (String.ofList keyword))
    | some p => p.parse (Text.trim content) d

/-- A line for the first of the parsers that claim it. -/
def readClaimed (first : LineParser) (others : List LineParser) (line : List Char) (d : Draft) :
    Except ParseError Draft :=
  let d := if others.isEmpty then d
    else d.warn (.ambiguous first.header (others.map LineParser.header))
  first.parse (Text.trim (first.content line)) d

/-- Reads a line that is trimmed and not empty. -/
def readLine (c : Compiler) (line : List Char) (d : Draft) : Except ParseError Draft :=
  match line with
  | '[' :: rest => c.readKeyword rest d
  | _ =>
    match c.leading.filter fun p => p.claims line with
    | first :: others => readClaimed first others line d
    | [] => c.fallback.parse line d

/-- Reads lines, the first of which has the given number. -/
def readLines (c : Compiler) : Nat → List (List Char) → Draft → Except CompileError Draft
  | _, [], d => .ok d
  | number, raw :: rest, d =>
    let line := Text.trim raw
    if line = [] then c.readLines (number + 1) rest d
    else match c.readLine line { d with line := number } with
      | .ok d => c.readLines (number + 1) rest d
      | .error kind => .error ⟨d.source, number, kind⟩

def compile (c : Compiler) (source text : String) : Except CompileError Script :=
  (c.readLines 1 (Text.lines text.toList) (Draft.empty source)).map Draft.finish

end Compiler

end Fabula.Script
