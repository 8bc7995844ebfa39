/-!
What can be read from a disk: texts of files and names in directories.
-/

namespace Fabula

inductive ReadError where
  | notFound
  | isDirectory
  | notDirectory
  /-- The bytes are no text. -/
  | notText
  | other (message : String)
deriving DecidableEq

def ReadError.message : ReadError → String
  | notFound => "No such file or directory (os error 2)"
  | isDirectory => "Is a directory (os error 21)"
  | notDirectory => "Not a directory (os error 20)"
  | notText => "stream did not contain valid UTF-8"
  | other message => message

structure Disk where
  read : String → Except ReadError String
  /-- The names in a directory; nothing for a path that is no directory. -/
  entries? : String → Option (Except ReadError (List String))

end Fabula
