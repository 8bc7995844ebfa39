import Fabula.Proofs.Script.Nesting

/-!
# Frames

The frames of a script are its open blocks, the innermost first, as far as they decide what may
follow: a menu, or a conditional that has had its last branch or not. A line changes them as it
changes the bracket stack.
-/

namespace Fabula.Script

/-- An open block, as far as it decides what may follow. -/
inductive Frame where
  | menu
  /-- A conditional, and whether it has had its last branch. -/
  | conditional (complete : Bool)
deriving DecidableEq, Repr

def Sentence.frame : Sentence → Frame
  | conditional c => .conditional c.otherwise.isSome
  | _ => .menu

/-- The frame of the block opened at an index. -/
def frameAt (ss : List Sentence) (i : Nat) : Frame := ss[i]?.elim .menu Sentence.frame

/-- The open blocks, the innermost first. -/
def frames (ss : List Sentence) : List Frame := (blockStack (lines ss)).map (frameAt ss)

section Frames
variable {ss : List Sentence} {s : Sentence} {f : Sentence → Sentence} {i : Nat}

theorem lt_of_mem_blockStack (h : i ∈ blockStack (lines ss)) : i < ss.length := by
  obtain ⟨l, hl, _⟩ := (blockStack_sorted (lines ss)).2 i h
  have := (List.getElem?_eq_some_iff.mp hl).1
  rwa [length_lines] at this

theorem frames_concat (ss : List Sentence) (s : Sentence) : frames (ss ++ [s]) =
    (s.line.nest ss.length (blockStack (lines ss))).map (frameAt (ss ++ [s])) := by
  rw [frames, lines_append, lines_cons, lines_nil, blockStack_concat, length_lines]

theorem frames_below (ss : List Sentence) (s : Sentence) :
    (blockStack (lines ss)).map (frameAt (ss ++ [s])) = frames ss := by
  refine List.map_congr_left fun i hi => ?_
  rw [frameAt, frameAt, List.getElem?_append_left (lt_of_mem_blockStack hi)]

theorem frames_plain (ho : s.line.isOpener = false) (hc : s.line ≠ .close) :
    frames (ss ++ [s]) = frames ss := by
  rw [frames_concat, Line.nest_plain ho hc, frames_below]

theorem frames_opener (ho : s.line.isOpener = true) :
    frames (ss ++ [s]) = s.frame :: frames ss := by
  rw [frames_concat, Line.nest_opener ho, List.map_cons, frames_below]
  simp [frameAt]

theorem frames_close (ss : List Sentence) : frames (ss ++ [.close]) = (frames ss).tail := by
  rw [frames_concat, ← frames_below ss .close]
  exact List.map_tail

theorem frames_modify (hl : ∀ s, (f s).line = s.line) (hf : ∀ s, (f s).frame = s.frame)
    (ss : List Sentence) (i : Nat) : frames (ss.modify i f) = frames ss := by
  rw [frames, frames, lines_modify hl]
  refine List.map_congr_left fun j _ => ?_
  rw [frameAt, frameAt, List.getElem?_modify]
  cases ss[j]? with
  | none => rfl
  | some t => by_cases hij : i = j <;> simp [hij, hf]

theorem frames_setOtherwise {c : Conditional} {opened : List Nat}
    (hstack : blockStack (lines ss) = i :: opened) (hi : ss[i]? = some (.conditional c))
    (target : Nat) : frames (ss.modify i (Sentence.setOtherwise target)) =
      .conditional true :: (frames ss).tail := by
  have hnot : ∀ j ∈ opened, i ≠ j := by
    have hsorted := (blockStack_sorted (lines ss)).1
    rw [hstack] at hsorted
    intro j hj
    have := (List.pairwise_cons.mp hsorted).1 j hj
    omega
  rw [frames, frames, lines_modify (Sentence.line_setOtherwise _), hstack, List.map_cons,
    List.map_cons, List.tail_cons]
  congr 1
  · simp [frameAt, hi, Sentence.setOtherwise, Sentence.frame]
  · refine List.map_congr_left fun j hj => ?_
    rw [frameAt, frameAt, List.getElem?_modify_ne _ _ (hnot j hj)]

theorem frames_growClose (ss : List Sentence) : frames (growClose ss) = (frames ss).tail := by
  have hframe : ∀ s : Sentence, (s.closeAt ss.length).frame = s.frame := by
    intro s
    cases s <;> rfl
  unfold growClose
  split
  · rw [frames_close, frames_modify (Sentence.line_closeAt _) hframe]
  · rw [frames_close]

theorem grow_modify_frames {f : Sentence → Sentence} {marker : Sentence} {i : Nat}
    (hl : ∀ s, (f s).line = s.line) (hf : ∀ s, (f s).frame = s.frame)
    (ho : marker.line.isOpener = false) (hc : marker.line ≠ .close) :
    frames (ss.modify i f ++ [marker]) = frames ss := by
  rw [frames_plain ho hc, frames_modify hl hf]

end Frames

end Fabula.Script
