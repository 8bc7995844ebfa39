import Fabula.Graph.Basic

/-!
Libraries: all graphs that a story may reach, each under a key, in the order of their arrival. The
key of a graph is its id, unless the library was read from a text that says otherwise.
-/

namespace Fabula

structure Library where
  entries : List (Uuid × Graph)

namespace Library

def empty : Library := ⟨[]⟩

/-- Puts a value under a key; one that is there already is replaced in its place. -/
def put {α : Type} (key : Uuid) (value : α) : List (Uuid × α) → List (Uuid × α)
  | [] => [(key, value)]
  | (k, v) :: rest => if k = key then (k, value) :: rest else (k, v) :: put key value rest

/-- Adds a graph under its own id. -/
def insert (l : Library) (g : Graph) : Library := ⟨put g.id g l.entries⟩

def get? (l : Library) (key : Uuid) : Option Graph := l.entries.lookup key

def graphs (l : Library) : List Graph := l.entries.map Prod.snd

def byName? (l : Library) (name : String) : Option Graph := l.graphs.find? fun g => g.name == name

def size (l : Library) : Nat := l.entries.length

/-- Every graph is kept under its own id. -/
def Keyed (l : Library) : Prop := ∀ entry ∈ l.entries, entry.1 = entry.2.id

theorem keyed_empty : empty.Keyed := by
  intro entry h
  simp [empty] at h

theorem mem_put {α : Type} {key : Uuid} {value : α} {entries : List (Uuid × α)}
    {entry : Uuid × α} (h : entry ∈ put key value entries) :
    entry = (key, value) ∨ entry ∈ entries := by
  induction entries with
  | nil => simpa [put] using h
  | cons e rest ih =>
    obtain ⟨k, v⟩ := e
    unfold put at h
    split at h
    · rename_i hk
      rcases List.mem_cons.mp h with rfl | hr
      · exact Or.inl (by rw [hk])
      · exact Or.inr (List.mem_cons_of_mem _ hr)
    · rcases List.mem_cons.mp h with rfl | hr
      · exact Or.inr (List.mem_cons_self ..)
      · rcases ih hr with hv | hm
        · exact Or.inl hv
        · exact Or.inr (List.mem_cons_of_mem _ hm)

theorem keyed_insert {l : Library} (hl : l.Keyed) (g : Graph) : (l.insert g).Keyed := by
  intro entry h
  rcases mem_put h with rfl | hm
  · rfl
  · exact hl entry hm

end Library

end Fabula
