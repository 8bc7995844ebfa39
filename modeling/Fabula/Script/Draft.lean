import Fabula.Script.Basic

/-!
The script under construction. A draft grows by a sentence at its end, and an earlier sentence
changes only to learn where its block ends or where one of its branches begins.
-/

namespace Fabula.Script

/-- The last index whose element satisfies `p`. -/
def lastIndex? {α : Type} (p : α → Bool) : List α → Option Nat
  | [] => none
  | x :: rest =>
    match lastIndex? p rest with
    | some i => some (i + 1)
    | none => if p x then some 0 else none

/-- A sentence and the line it was written on. -/
structure Entry where
  line : Nat
  sentence : Sentence
deriving DecidableEq, Repr

structure Draft where
  source : String
  /-- The line being compiled, counted from 1. -/
  line : Nat
  entries : List Entry
  characters : List String
  jumps : List String
  warnings : List Diagnostic
deriving DecidableEq, Repr

namespace Draft

def empty (source : String) : Draft := ⟨source, 0, [], [], [], []⟩

def size (d : Draft) : Nat := d.entries.length

def sentence? (d : Draft) (index : Nat) : Option Sentence := d.entries[index]?.map Entry.sentence

/-- Appends a sentence written on the current line. -/
def push (d : Draft) (s : Sentence) : Draft :=
  { d with entries := d.entries ++ [⟨d.line, s⟩] }

/-- Changes the sentence at an index. -/
def update (d : Draft) (index : Nat) (f : Sentence → Sentence) : Draft :=
  { d with entries := d.entries.modify index fun e => { e with sentence := f e.sentence } }

/-- The nearest sentence before the end that satisfies `p`. -/
def searchBack? (d : Draft) (p : Sentence → Bool) : Option Nat :=
  lastIndex? (fun e : Entry => p e.sentence) d.entries

def addCharacter (d : Draft) (name : String) : Draft :=
  { d with characters := insertName d.characters name }

def addJump (d : Draft) (label : String) : Draft :=
  { d with jumps := insertName d.jumps label }

def warnAt (d : Draft) (line : Nat) (w : Warning) : Draft :=
  { d with warnings := d.warnings ++ [⟨d.source, line, w⟩] }

/-- Warns about the current line. -/
def warn (d : Draft) (w : Warning) : Draft := d.warnAt d.line w

/-- The finished script, with a warning for every block that was never closed. -/
def finish (d : Draft) : Script :=
  let unclosed := d.entries.filter fun e => e.sentence.isOpen
  let done := unclosed.foldl (fun d e => d.warnAt e.line (.neverClosed e.sentence.write)) d
  { name := done.source
    sentences := done.entries.map Entry.sentence
    characters := done.characters
    jumps := done.jumps
    warnings := done.warnings }

end Draft

theorem lastIndex?_lt {α : Type} {p : α → Bool} {xs : List α} {i : Nat}
    (h : lastIndex? p xs = some i) : i < xs.length := by
  induction xs generalizing i with
  | nil => simp [lastIndex?] at h
  | cons x rest ih =>
    simp only [lastIndex?] at h
    split at h
    · rename_i j hr
      have hj := ih hr
      simp only [Option.some.injEq] at h
      simp only [List.length_cons]
      omega
    · split at h
      · simp only [Option.some.injEq] at h
        simp [← h]
      · simp at h

end Fabula.Script
