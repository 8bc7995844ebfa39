import Fabula.Yaml.Basic
import Fabula.Yaml.Scalar

/-!
Reading a YAML document: block and flow mappings and sequences, plain and quoted scalars, comments
and the marks around a document. Columns decide where a block collection ends; a text that holds
more than one document, or uses block scalars, tags, anchors, directives or explicit keys, is
refused.
-/

namespace Fabula.Yaml

def ofScalar (quoted : Bool) : List Char × Cursor → Yaml × Cursor
  | (text, c) => (scalar quoted (String.ofList text), c)

mutual

/-- A scalar or a flow collection. A plain scalar of block text goes on in lines that are indented
by `floor` at least. -/
def inlineNode : Nat → Bool → Nat → Cursor → Option (Yaml × Cursor)
  | 0, _, _, _ => none
  | fuel + 1, flow, floor, c =>
    match c.rest with
    | '[' :: _ => (flowItems fuel floor (c.skip 1)).map fun (items, c) => (seq items, c)
    | '\x7b' :: _ => (flowEntries fuel floor (c.skip 1)).map fun (entries, c) => (map entries, c)
    | '\'' :: rest => (scanSingle [] .none c.line (c.column + 1) rest).map (ofScalar true)
    | '"' :: rest => (scanDouble [] .none c.line (c.column + 1) rest).map (ofScalar true)
    | rest =>
      if startsPlain flow rest then
        (scanPlain flow floor [] .none c c.line c.column rest).map (ofScalar false)
      else none

/-- What follows the colon of a key in flow text: a node, or nothing before the next mark. -/
def flowValue : Nat → Nat → Cursor → Option (Yaml × Cursor)
  | 0, _, _ => none
  | fuel + 1, floor, c =>
    let t := c.seekFlow
    match t.rest with
    | ',' :: _ => some (empty, t)
    | ']' :: _ => some (empty, t)
    | '\x7d' :: _ => some (empty, t)
    | _ => inlineNode fuel true floor t

/-- A node of flow text and, when a colon follows it on its line, the value that belongs to it. -/
def flowPair : Nat → Nat → Cursor → Option (Yaml × Option Yaml × Cursor)
  | 0, _, _ => none
  | fuel + 1, floor, t =>
    match inlineNode fuel true floor t with
    | none => none
    | some (node, after) =>
      let u := after.seekFlow
      match u.rest with
      | ':' :: _ =>
        if u.line = t.line then
          (flowValue fuel floor (u.skip 1)).map fun (value, c) => (node, some value, c.seekFlow)
        else none
      | _ => some (node, none, u)

/-- The items of a flow sequence and its closing bracket. A pair is a mapping of one entry. -/
def flowItems : Nat → Nat → Cursor → Option (List Yaml × Cursor)
  | 0, _, _ => none
  | fuel + 1, floor, c =>
    let t := c.seekFlow
    match t.rest with
    | ']' :: _ => some ([], t.skip 1)
    | _ =>
      match flowPair fuel floor t with
      | none => none
      | some (node, value, u) =>
        let item := match value with
          | some value => map [(node, value)]
          | none => node
        match u.rest with
        | ']' :: _ => some ([item], u.skip 1)
        | ',' :: _ => (flowItems fuel floor (u.skip 1)).map fun (items, c) => (item :: items, c)
        | _ => none

/-- The entries of a flow mapping and its closing brace. A key alone has an empty value. -/
def flowEntries : Nat → Nat → Cursor → Option (List (Yaml × Yaml) × Cursor)
  | 0, _, _ => none
  | fuel + 1, floor, c =>
    let t := c.seekFlow
    match t.rest with
    | '\x7d' :: _ => some ([], t.skip 1)
    | _ =>
      match flowPair fuel floor t with
      | none => none
      | some (key, value, u) =>
        let entry := (key, value.getD empty)
        match u.rest with
        | '\x7d' :: _ => some ([entry], u.skip 1)
        | ',' :: _ =>
          (flowEntries fuel floor (u.skip 1)).map fun (entries, c) => (entry :: entries, c)
        | _ => none

end

mutual

/-- A node of block text. A block collection may begin here only if `fresh` holds. -/
def blockNode : Nat → Nat → Bool → Cursor → Option (Yaml × Cursor)
  | 0, _, _, _ => none
  | fuel + 1, floor, fresh, c =>
    if isEntry c.rest then
      if fresh then (blockItems fuel false c.column c).map fun (items, c) => (seq items, c)
      else none
    else
      match inlineNode fuel false floor c with
      | none => none
      | some (node, after) =>
        let u := after.skipBlanks
        if after.line = c.line && isColon u.rest then
          if fresh then
            (blockEntries fuel c.column node (u.skip 1)).map fun (entries, c) => (map entries, c)
          else none
        else some (node, after)

/-- The value of a key of the block mapping at `column`, after the colon. -/
def blockValue : Nat → Nat → Cursor → Option (Yaml × Cursor)
  | 0, _, _ => none
  | fuel + 1, column, c =>
    let t := c.seek true
    if t.rest.isEmpty then some (empty, c)
    else if t.line = c.line then blockNode fuel (column + 1) false t
    else if t.atEnd then some (empty, c)
    else if column < t.column then blockNode fuel (column + 1) true t
    else if t.column = column && isEntry t.rest then
      (blockItems fuel true column t).map fun (items, c) => (seq items, c)
    else some (empty, c)

/-- The entries of the block mapping at `column`, from the value of `key` on. -/
def blockEntries : Nat → Nat → Yaml → Cursor → Option (List (Yaml × Yaml) × Cursor)
  | 0, _, _, _ => none
  | fuel + 1, column, key, c =>
    match blockValue fuel column c with
    | none => none
    | some (value, after) =>
      let u := after.seek true
      if u.atEnd || u.column < column then some ([(key, value)], after)
      else if u.line = after.line || column < u.column then none
      else
        match inlineNode fuel false (column + 1) u with
        | none => none
        | some (next, end_) =>
          let v := end_.skipBlanks
          if end_.line = u.line && isColon v.rest then
            (blockEntries fuel column next (v.skip 1)).map fun (entries, c) =>
              ((key, value) :: entries, c)
          else none

/-- The items of the block sequence at `column`, from a dash on. A sequence that is not indented
against the mapping around it ends where that goes on. -/
def blockItems : Nat → Bool → Nat → Cursor → Option (List Yaml × Cursor)
  | 0, _, _, _ => none
  | fuel + 1, inMapping, column, c =>
    let afterDash := c.skip 1
    let t := afterDash.seek false
    let item :=
      if t.rest.isEmpty then some (empty, afterDash)
      else if t.line = c.line then blockNode fuel (column + 1) true t
      else if t.atEnd || t.column ≤ column then some (empty, afterDash)
      else blockNode fuel (column + 1) true t
    match item with
    | none => none
    | some (item, after) =>
      let u := after.seek true
      if u.atEnd || u.column < column then some ([item], after)
      else if u.line = after.line || column < u.column then none
      else if isEntry u.rest then
        (blockItems fuel inMapping column u).map fun (items, c) => (item :: items, c)
      else if inMapping then some ([item], after)
      else none

end

/-- The characters that a YAML text may hold. -/
def isAllowed (c : Char) : Bool :=
  c = '\t' || c = '\n' || (0x20 ≤ c.val && c.val ≤ 0x7E) || c.val = 0x85 ||
    (0xA0 ≤ c.val && c.val ≤ 0xFFFD && c.val != 0xFEFF) || 0x10000 ≤ c.val

/-- Every line end becomes a line feed. -/
def unifyBreaks : List Char → List Char
  | [] => []
  | '\r' :: '\n' :: rest => '\n' :: unifyBreaks rest
  | c :: rest => (if c = '\r' then '\n' else c) :: unifyBreaks rest

/-- The root node of a document that begins at `t`. -/
def rootNode (fuel : Nat) (t : Cursor) : Option (Yaml × Cursor) :=
  if t.atStart then
    let u := (t.skip 3).seek true
    if u.atEnd then some (empty, t.skip 3)
    else blockNode fuel 0 (u.line != t.line) u
  else blockNode fuel 0 true t

/-- Reads a text that holds exactly one document. -/
def parse? (text : List Char) : Option Yaml :=
  let marked := match text with
    | '\ufeff' :: rest => rest
    | _ => text
  let cs := unifyBreaks marked
  let t := (Cursor.mk 0 0 cs).seek false
  if !cs.all isAllowed || t.rest.isEmpty then none
  else
    match rootNode (4 * cs.length + 8) t with
    | none => none
    | some (node, after) =>
      let u := after.seek true
      if u.rest.isEmpty then some node
      else if u.atStop && ((u.skip 3).seek true).rest.isEmpty then some node
      else none

end Fabula.Yaml
