/-!
YAML documents as trees. A scalar keeps the text that was written and whether it stood in quotes;
what the text means is up to the reader of the tree.
-/

namespace Fabula

inductive Yaml where
  | scalar (quoted : Bool) (text : String)
  | seq (items : List Yaml)
  | map (entries : List (Yaml × Yaml))
deriving Inhabited

namespace Yaml

/-- A node of which nothing is written. -/
def empty : Yaml := scalar false ""

/-- The text of a scalar, whatever it means. -/
def rawText? : Yaml → Option String
  | scalar _ text => some text
  | _ => none

end Yaml

end Fabula
