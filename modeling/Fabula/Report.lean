/-!
Reports of a failure: what failed, and under it the causes, the nearest first.
-/

namespace Fabula

structure Report where
  top : String
  causes : List String
deriving DecidableEq, Repr

namespace Report

/-- What a failure stopped, above the failure. -/
def under (context : String) (r : Report) : Report := ⟨context, r.top :: r.causes⟩

def messages (r : Report) : List String := r.top :: r.causes

/-- The lines of a text, `first` before the first of them and `rest` before the others. -/
def indent (first rest text : String) : String :=
  first ++ ("\n" ++ rest).intercalate ((text.toList.splitOn '\n').map String.ofList)

/-- A cause with its number in a column of five. -/
def numbered (cause : String × Nat) : String :=
  let number := toString cause.2
  let column := String.ofList (List.replicate (5 - number.length) ' ') ++ number
  indent (column ++ ": ") "       " cause.1

/-- Several causes are numbered from 0, a single one is not. -/
def causeLines : List String → List String
  | [cause] => [indent "    " "    " cause]
  | causes => causes.zipIdx.map numbered

def write (r : Report) : String :=
  let body := if r.causes.isEmpty then "" else
    "\n\nCaused by:\n" ++ "\n".intercalate (causeLines r.causes)
  "Error: " ++ r.top ++ body ++ "\n"

example : write ⟨"a", []⟩ = "Error: a\n" := by decide +kernel

example : write ⟨"a", ["b"]⟩ = "Error: a\n\nCaused by:\n    b\n" := by decide +kernel

example : write ⟨"a", ["b", "c"]⟩ = "Error: a\n\nCaused by:\n    0: b\n    1: c\n" := by
  decide +kernel

end Report

end Fabula
