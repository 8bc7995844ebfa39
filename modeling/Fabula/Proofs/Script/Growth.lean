import Fabula.Proofs.Script.Search
import Fabula.Script.Compiler

/-!
# How a script grows

A line that is accepted adds at most one sentence. `Line` is what a sentence says by itself,
without the places that compiling finds for it, and `grow` is the growth of a list of sentences
by one line. The standard compiler does nothing else: every script that it accepts is grown from
its own lines.
-/

namespace Fabula.Script

inductive Line where
  | say (line : Say)
  | close
  | menu
  | option (text : String)
  | conditional (condition : String)
  | branch (condition : String)
  | otherwise
  | jump (label : Option String)
  | command (command : Command)
deriving DecidableEq, Repr

namespace Line

def isOpener : Line → Bool
  | menu => true
  | conditional _ => true
  | _ => false

end Line

namespace Sentence

/-- The sentence without its links to other sentences. -/
def line : Sentence → Line
  | say l => .say l
  | close => .close
  | menu _ => .menu
  | option text _ => .option text
  | conditional c => .conditional c.condition
  | branch condition _ => .branch condition
  | otherwise _ => .otherwise
  | jump label => .jump label
  | command c => .command c

@[simp] theorem line_closeAt (exit : Nat) (s : Sentence) : (s.closeAt exit).line = s.line := by
  cases s <;> rfl

@[simp] theorem line_addOption (text : String) (target : Nat) (s : Sentence) :
    (s.addOption text target).line = s.line := by
  cases s <;> rfl

@[simp] theorem line_addBranch (condition : String) (target : Nat) (s : Sentence) :
    (s.addBranch condition target).line = s.line := by
  cases s <;> rfl

@[simp] theorem line_setOtherwise (target : Nat) (s : Sentence) :
    (s.setOtherwise target).line = s.line := by
  cases s <;> rfl

end Sentence

def lines (ss : List Sentence) : List Line := ss.map Sentence.line

@[simp] theorem lines_nil : lines [] = [] := rfl

@[simp] theorem lines_append (ss ts : List Sentence) : lines (ss ++ ts) = lines ss ++ lines ts :=
  List.map_append

@[simp] theorem lines_cons (s : Sentence) (ss : List Sentence) :
    lines (s :: ss) = s.line :: lines ss := rfl

@[simp] theorem length_lines (ss : List Sentence) : (lines ss).length = ss.length :=
  List.length_map _

theorem lines_modify {f : Sentence → Sentence} (h : ∀ s, (f s).line = s.line)
    (ss : List Sentence) (i : Nat) : lines (ss.modify i f) = lines ss :=
  map_modify_of_comp_eq h i

def hasOtherwiseIn (ss : List Sentence) (i : Nat) : Bool := ss[i]?.any Sentence.hasOtherwise

/-- A `/` ends the last block that is open. -/
def growClose (ss : List Sentence) : List Sentence :=
  match lastIndex? Sentence.isOpen ss with
  | some opener => ss.modify opener (Sentence.closeAt ss.length) ++ [.close]
  | none => ss ++ [.close]

def growOption (ss : List Sentence) (text : String) : Option (List Sentence) :=
  (lastIndex? Sentence.isOpenMenu ss).map fun menu =>
    ss.modify menu (Sentence.addOption text (ss.length + 1)) ++ [.option text menu]

/-- The last open conditional learns of one more branch, unless it has had its last one. -/
def growBranch (ss : List Sentence) (f : Nat → Sentence → Sentence) (marker : Nat → Sentence) :
    Option (List Sentence) :=
  (lastIndex? Sentence.isOpenConditional ss).bind fun owner =>
    if hasOtherwiseIn ss owner then none
    else some (ss.modify owner (f (ss.length + 1)) ++ [marker owner])

/-- The sentences after one more line, if it is accepted. Commands come from extensions, never
from a line of the language itself. -/
def grow (ss : List Sentence) : Line → Option (List Sentence)
  | .say l => some (ss ++ [.say l])
  | .close => some (growClose ss)
  | .menu => some (ss ++ [.menu ⟨[], none⟩])
  | .option text => growOption ss text
  | .conditional condition => some (ss ++ [.conditional ⟨condition, [], none, none⟩])
  | .branch condition => growBranch ss (Sentence.addBranch condition) (.branch condition)
  | .otherwise => growBranch ss Sentence.setOtherwise .otherwise
  | .jump label => some (ss ++ [.jump label])
  | .command _ => none

def growAll (ss : List Sentence) (ls : List Line) : Option (List Sentence) := ls.foldlM grow ss

@[simp] theorem growAll_nil (ss : List Sentence) : growAll ss [] = some ss := rfl

theorem growAll_cons (ss : List Sentence) (l : Line) (ls : List Line) :
    growAll ss (l :: ls) = (grow ss l).bind fun ts => growAll ts ls := rfl

theorem growAll_append (ss : List Sentence) (ls ks : List Line) :
    growAll ss (ls ++ ks) = (growAll ss ls).bind fun ts => growAll ts ks := by
  simp only [growAll, List.foldlM_append]
  rfl

/-- Every block is closed. -/
def AllClosed (ss : List Sentence) : Prop := ∀ s ∈ ss, s.isOpen = false

instance (ss : List Sentence) : Decidable (AllClosed ss) :=
  inferInstanceAs (Decidable (∀ s ∈ ss, s.isOpen = false))

/-- What one line can do. Either it appends a sentence that has no links, or it closes a block,
or it appends a marker and tells its owner. -/
inductive Grows (ss : List Sentence) : List Sentence → Prop
  | say (l : Say) : Grows ss (ss ++ [.say l])
  | jump (label : Option String) : Grows ss (ss ++ [.jump label])
  | menu : Grows ss (ss ++ [.menu ⟨[], none⟩])
  | conditional (condition : String) :
      Grows ss (ss ++ [.conditional ⟨condition, [], none, none⟩])
  | stray (closed : AllClosed ss) : Grows ss (ss ++ [.close])
  | close {i : Nat} (last : lastIndex? Sentence.isOpen ss = some i) :
      Grows ss (ss.modify i (Sentence.closeAt ss.length) ++ [.close])
  | option {i : Nat} (text : String) (last : lastIndex? Sentence.isOpenMenu ss = some i) :
      Grows ss (ss.modify i (Sentence.addOption text (ss.length + 1)) ++ [.option text i])
  | branch {i : Nat} (condition : String)
      (last : lastIndex? Sentence.isOpenConditional ss = some i)
      (more : hasOtherwiseIn ss i = false) :
      Grows ss (ss.modify i (Sentence.addBranch condition (ss.length + 1)) ++
        [.branch condition i])
  | otherwise {i : Nat} (last : lastIndex? Sentence.isOpenConditional ss = some i)
      (more : hasOtherwiseIn ss i = false) :
      Grows ss (ss.modify i (Sentence.setOtherwise (ss.length + 1)) ++ [.otherwise i])

theorem growBranch_eq_some {ss ts : List Sentence} {f : Nat → Sentence → Sentence}
    {marker : Nat → Sentence} (h : growBranch ss f marker = some ts) :
    ∃ i, lastIndex? Sentence.isOpenConditional ss = some i ∧ hasOtherwiseIn ss i = false ∧
      ts = ss.modify i (f (ss.length + 1)) ++ [marker i] := by
  obtain ⟨i, hi, ho⟩ := Option.bind_eq_some_iff.mp h
  split at ho
  · simp at ho
  · rename_i hm
    exact ⟨i, hi, by simpa using hm, (Option.some.inj ho).symm⟩

theorem grows_of_grow {ss ts : List Sentence} {l : Line} (h : grow ss l = some ts) :
    Grows ss ts := by
  cases l with
  | say l => obtain rfl := Option.some.inj h; exact .say l
  | menu => obtain rfl := Option.some.inj h; exact .menu
  | conditional c => obtain rfl := Option.some.inj h; exact .conditional c
  | jump label => obtain rfl := Option.some.inj h; exact .jump label
  | command c => simp [grow] at h
  | close =>
    obtain rfl := Option.some.inj h
    unfold growClose
    split
    · rename_i i hi
      exact .close hi
    · rename_i hn
      exact .stray (lastIndex?_eq_none_iff.mp hn)
  | option text =>
    obtain ⟨i, hi, rfl⟩ := Option.map_eq_some_iff.mp h
    exact .option text hi
  | branch c =>
    obtain ⟨i, hi, hm, rfl⟩ := growBranch_eq_some h
    exact .branch c hi hm
  | otherwise =>
    obtain ⟨i, hi, hm, rfl⟩ := growBranch_eq_some h
    exact .otherwise hi hm

theorem lines_grow {ss ts : List Sentence} {l : Line} (h : grow ss l = some ts) :
    lines ts = lines ss ++ [l] := by
  cases l with
  | close =>
    obtain rfl := Option.some.inj h
    unfold growClose
    split <;> simp [lines_modify (Sentence.line_closeAt _), Sentence.line]
  | option text =>
    obtain ⟨i, _, rfl⟩ := Option.map_eq_some_iff.mp h
    simp [lines_modify (Sentence.line_addOption _ _), Sentence.line]
  | branch c =>
    obtain ⟨i, _, _, rfl⟩ := growBranch_eq_some h
    simp [lines_modify (Sentence.line_addBranch _ _), Sentence.line]
  | otherwise =>
    obtain ⟨i, _, _, rfl⟩ := growBranch_eq_some h
    simp [lines_modify (Sentence.line_setOtherwise _), Sentence.line]
  | command c => simp [grow] at h
  | say _ | menu | conditional _ | jump _ =>
    obtain rfl := Option.some.inj h
    simp [Sentence.line]

theorem lines_growAll {ss ts : List Sentence} {ls : List Line} (h : growAll ss ls = some ts) :
    lines ts = lines ss ++ ls := by
  induction ls generalizing ss with
  | nil => obtain rfl := Option.some.inj h; simp
  | cons l ls ih =>
    rw [growAll_cons] at h
    obtain ⟨us, hu, hts⟩ := Option.bind_eq_some_iff.mp h
    rw [ih hts, lines_grow hu]
    simp

/-- The sentences are what their own lines grow into. -/
def Grown (ss : List Sentence) : Prop := growAll [] (lines ss) = some ss

theorem Grown.of_growAll {ls : List Line} {ss : List Sentence} (h : growAll [] ls = some ss) :
    Grown ss := by
  have hl := lines_growAll h
  rw [lines_nil, List.nil_append] at hl
  rw [Grown, hl, h]

theorem Grown.grow {ss ts : List Sentence} {l : Line} (hs : Grown ss)
    (h : grow ss l = some ts) : Grown ts := by
  have hall : growAll [] (lines ss ++ [l]) = some ts := by
    rw [growAll_append, hs, Option.bind_some, growAll_cons, h]
    rfl
  exact Grown.of_growAll hall

theorem grown_nil : Grown [] := rfl

/-- What holds of no sentences and survives every line holds of every grown script. -/
theorem Grown.induction {P : List Sentence → Prop} (nil : P [])
    (step : ∀ {ss ts}, Grown ss → P ss → Grows ss ts → P ts) {ss : List Sentence}
    (h : Grown ss) : P ss := by
  have all : ∀ ls : List Line, ∀ ts us, Grown ts → P ts → growAll ts ls = some us → P us := by
    intro ls
    induction ls with
    | nil =>
      intro ts us _ hp hu
      obtain rfl := Option.some.inj hu
      exact hp
    | cons l ls ih =>
      intro ts us ht hp hu
      rw [growAll_cons] at hu
      obtain ⟨vs, hv, hu⟩ := Option.bind_eq_some_iff.mp hu
      exact ih vs us (ht.grow hv) (step ht hp (grows_of_grow hv)) hu
  exact all (lines ss) [] ss grown_nil nil h

theorem growAll_no_command {ss ts : List Sentence} {ls : List Line}
    (h : growAll ss ls = some ts) : ∀ l ∈ ls, ∀ c, l ≠ .command c := by
  induction ls generalizing ss with
  | nil => simp
  | cons l ls ih =>
    rw [growAll_cons] at h
    obtain ⟨us, hu, hts⟩ := Option.bind_eq_some_iff.mp h
    intro k hk c
    rcases List.mem_cons.mp hk with rfl | hk
    · rintro rfl
      simp [grow] at hu
    · exact ih hts k hk c

theorem Grown.no_command {ss : List Sentence} (h : Grown ss) (c : Command) : .command c ∉ ss :=
  fun hs => growAll_no_command h _ (List.mem_map_of_mem hs) c rfl

end Fabula.Script
