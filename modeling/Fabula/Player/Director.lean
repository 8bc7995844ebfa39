import Fabula.Chain.Error
import Fabula.Graph.Basic
import Fabula.Script.Basic

/-!
Directors. A player plays one script at a time; its director decides where control goes when a
script jumps away or runs out, and whom a speaker stands for.
-/

namespace Fabula

/-- What a director answers when a script is left. -/
inductive Transfer where
  /-- There is nowhere to go. -/
  | stay
  | execute (script : Script)
  | finish
deriving DecidableEq

class Director (D : Type) where
  /-- The script jumps away by an outlet. -/
  leave : D → String → Except ChainError Transfer × D
  /-- The script has run to its end. -/
  finished : D → Except ChainError Transfer × D
  /-- The name of the character that a speaker of the script stands for. -/
  character? : D → Script → String → Option String

/-- Directs one script on its own: jumps lead nowhere. A speaker stands for the character bound
to its place in the declaration or, without bindings, for the character of its own name. -/
structure SingleScript where
  bindings : Option (List String)
deriving DecidableEq

namespace SingleScript

def character? (d : SingleScript) (script : Script) (key : String) : Option String :=
  match d.bindings with
  | none => some key
  | some names => (script.characterIndex? key).bind fun i => names[i]?

instance : Director SingleScript where
  leave d _ := (.ok .stay, d)
  finished d := (.ok .finish, d)
  character? := character?

end SingleScript

end Fabula
