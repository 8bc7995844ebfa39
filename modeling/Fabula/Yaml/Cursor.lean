/-!
Places in a YAML text. Block structure is a matter of lines and columns, so a cursor knows both.
-/

namespace Fabula.Yaml

structure Cursor where
  line : Nat
  column : Nat
  rest : List Char

/-- Whether a text begins with a blank, a line end, or nothing. -/
def isSpaced : List Char → Bool
  | [] => true
  | c :: _ => c = ' ' || c = '\t' || c = '\n'

/-- A dash that begins an entry of a block sequence. -/
def isEntry : List Char → Bool
  | '-' :: rest => isSpaced rest
  | _ => false

/-- A colon between a key and its value in a block mapping. -/
def isColon : List Char → Bool
  | ':' :: rest => isSpaced rest
  | _ => false

/-- A line of three dashes or three dots. -/
def isMark (c : Char) : List Char → Bool
  | x :: y :: z :: rest => x = c && y = c && z = c && isSpaced rest
  | _ => false

namespace Cursor

/-- The cursor after the next `count` characters, none of which is a line end. -/
def skip (c : Cursor) (count : Nat) : Cursor :=
  { c with column := c.column + count, rest := c.rest.drop count }

def atStart (c : Cursor) : Bool := c.column = 0 && isMark '-' c.rest

def atStop (c : Cursor) : Bool := c.column = 0 && isMark '.' c.rest

/-- Whether the text of the document ends here. -/
def atEnd (c : Cursor) : Bool := c.rest.isEmpty || c.atStart || c.atStop

/-- Passes blanks, comments and line ends. Tabs are blanks in flow text, and elsewhere only while
`tabs` holds, which a line end revokes. -/
def seekFrom (flow : Bool) : Bool → Bool → Nat → Nat → List Char → Cursor
  | _, _, line, column, [] => ⟨line, column, []⟩
  | tabs, comment, line, column, c :: rest =>
    if c = '\n' then seekFrom flow flow false (line + 1) 0 rest
    else if comment then seekFrom flow tabs true line (column + 1) rest
    else if c = ' ' || (c = '\t' && tabs) then seekFrom flow tabs false line (column + 1) rest
    else if c = '#' then seekFrom flow tabs true line (column + 1) rest
    else ⟨line, column, c :: rest⟩

/-- The next token of block text. -/
def seek (tabs : Bool) (c : Cursor) : Cursor := seekFrom false tabs false c.line c.column c.rest

/-- The next token of flow text. -/
def seekFlow (c : Cursor) : Cursor := seekFrom true true false c.line c.column c.rest

/-- The next character of the line that is not a blank. -/
def skipBlanks (c : Cursor) : Cursor :=
  c.skip (c.rest.takeWhile fun x => x = ' ' || x = '\t').length

end Cursor

end Fabula.Yaml
