/-!
File paths as text: components with slashes between them.
-/

namespace Fabula.Path

/-- A path as seen from a directory; an absolute path stays as it is. -/
def join (base path : String) : String :=
  if path.toList.head? = some '/' || base = "" then path
  else if base.toList.getLast? = some '/' then base ++ path
  else base ++ "/" ++ path

/-- Drops the slashes and dot components at the end of a path, which is given backwards. -/
def trimBackward : List Char → List Char
  | '/' :: c :: rest => trimBackward (c :: rest)
  | '.' :: '/' :: rest => trimBackward ('/' :: rest)
  | cs => cs
termination_by cs => cs.length

/-- The path without its last component. -/
def parent (path : String) : String :=
  let back := (trimBackward path.toList.reverse).dropWhile fun c => c != '/'
  String.ofList (trimBackward back).reverse

/-- The last component, when it is a name. -/
def fileName? (path : String) : Option String :=
  let name := String.ofList
    ((trimBackward path.toList.reverse).takeWhile fun c => c != '/').reverse
  if name = "" || name = "." || name = ".." then none else some name

/-- Whether a file name ends in a dot and the extension, after a name that is not empty. -/
def hasExtension (extension name : String) : Bool :=
  let back := name.toList.reverse
  let after := back.takeWhile fun c => c != '.'
  after.reverse == extension.toList && after.length + 1 < back.length

example : parent "a/./b.yaml" = "a" := by decide +kernel

example : parent "./b.yaml" = "." := by decide +kernel

end Fabula.Path
