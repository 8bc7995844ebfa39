import Fabula.Script.Diagnostic
import Fabula.Script.Sentence

/-!
Compiled scripts. Two scripts are equal when their names, sentences and warnings are, and they
declare the same characters and use the same labels, in any order.
-/

namespace Fabula

structure Script where
  name : String
  sentences : List Script.Sentence
  /-- Declared characters in the order of their declaration, each once. -/
  characters : List String
  /-- Labels of the jumps in the order they are met, each once. -/
  jumps : List String
  warnings : List Script.Diagnostic
deriving DecidableEq, Repr

namespace Script

def size (s : Script) : Nat := s.sentences.length

def sentence? (s : Script) (index : Nat) : Option Sentence := s.sentences[index]?

/-- The place of a character in the declaration. -/
def characterIndex? (s : Script) (key : String) : Option Nat := s.characters.idxOf? key

/-- Adds a name at the end, unless it is there already. -/
def insertName (names : List String) (name : String) : List String :=
  if name ∈ names then names else names ++ [name]

/-- The same names, in any order; in each list a name stands once. -/
def sameNames (a b : List String) : Bool := a.length == b.length && a.all fun n => b.contains n

def sameWarnings : List Diagnostic → List Diagnostic → Bool
  | [], [] => true
  | a :: as, b :: bs => a.same b && sameWarnings as bs
  | _, _ => false

def same (a b : Script) : Bool :=
  a.name == b.name && a.sentences == b.sentences && sameNames a.characters b.characters &&
    sameNames a.jumps b.jumps && sameWarnings a.warnings b.warnings

theorem mem_insertName {names : List String} {name x : String} :
    x ∈ insertName names name ↔ x ∈ names ∨ x = name := by
  unfold insertName
  split
  · rename_i h
    constructor
    · exact Or.inl
    · rintro (hx | rfl)
      · exact hx
      · exact h
  · simp

theorem nodup_insertName {names : List String} (h : names.Nodup) (name : String) :
    (insertName names name).Nodup := by
  unfold insertName
  split
  · exact h
  · rename_i hn
    rw [List.nodup_append]
    refine ⟨h, by simp, ?_⟩
    intro a ha b hb hab
    rw [List.mem_singleton] at hb
    exact hn (hb ▸ hab ▸ ha)

end Script

end Fabula
