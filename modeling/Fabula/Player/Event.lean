/-!
What a player shows, as a list of events in the order of showing.
-/

namespace Fabula

inductive Event where
  | character (name extra : String)
  | clearCharacter
  | text (content : String)
  | menu (options : List String)
  | clearMenu
  | visible (shown : Bool)
deriving DecidableEq, Repr

/-- The texts shown, in order. -/
def Event.lines (events : List Event) : List String :=
  events.filterMap fun
    | text content => some content
    | _ => none

end Fabula
