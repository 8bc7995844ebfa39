import Fabula.Json.Basic

/-!
The variables of a story: values under names, each name once.
-/

namespace Fabula

structure Store where
  entries : List (String × Json)

namespace Store

def empty : Store := ⟨[]⟩

def get? (s : Store) (name : String) : Option Json := s.entries.lookup name

def remove (s : Store) (name : String) : Store :=
  ⟨s.entries.filter fun entry => entry.1 != name⟩

def set (s : Store) (name : String) (value : Json) : Store :=
  ⟨(name, value) :: (s.remove name).entries⟩

/-- The store with the given entries; of two with one name the later counts. -/
def ofList (entries : List (String × Json)) : Store :=
  entries.foldl (fun s (name, value) => s.set name value) empty

end Store

end Fabula
