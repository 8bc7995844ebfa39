import Fabula.Proofs.Outline.Basic
import Fabula.Proofs.Script.Frames

/-!
# Outlines of well nested scripts

Every well nested script has an outline. The outline is found from the end: `Remains` says how the
lines that are left complete the blocks that are open, and each line before them either adds to
the part under way, or begins a part, or opens a block that they complete.
-/

namespace Fabula.Script

/-- The lines complete the open blocks, and then the script. -/
inductive Remains : List Frame → List Line → Prop
  | whole (o : Outline) : Remains [] o.lines
  | menu {below : List Frame} {ls : List Line} (body : Body) (options : Options) :
      Remains below ls → Remains (.menu :: below) (body.lines ++ (options.lines ++ .close :: ls))
  | conditional {below : List Frame} {ls : List Line} (body : Body) (branches : Branches) :
      Remains below ls →
        Remains (.conditional false :: below) (body.lines ++ (branches.lines ++ .close :: ls))
  | complete {below : List Frame} {ls : List Line} (body : Body) :
      Remains below ls → Remains (.conditional true :: below) (body.lines ++ .close :: ls)

namespace Remains
variable {fs : List Frame} {ls : List Line}

/-- What adds to a body in front adds to the part under way. -/
theorem cons (h : Remains fs ls) (f : Body → Body) (added : List Line)
    (hf : ∀ b, (f b).lines = added ++ b.lines) : Remains fs (added ++ ls) := by
  cases h with
  | whole o =>
    cases o with
    | body b =>
      rw [Outline.lines, ← hf]
      exact .whole (.body (f b))
    | stray before after =>
      rw [Outline.lines, ← List.append_assoc, ← hf]
      exact .whole (.stray (f before) after)
  | menu body options h =>
    rw [← List.append_assoc, ← hf]
    exact .menu (f body) options h
  | conditional body branches h =>
    rw [← List.append_assoc, ← hf]
    exact .conditional (f body) branches h
  | complete body h =>
    rw [← List.append_assoc, ← hf]
    exact .complete (f body) h

theorem close (h : Remains fs.tail ls) : Remains fs (.close :: ls) := by
  cases fs with
  | nil =>
    cases h with
    | whole o => exact .whole (.stray .nil o)
  | cons frame fs =>
    cases frame with
    | menu => exact .menu .nil .nil h
    | conditional complete =>
      cases complete with
      | false => exact .conditional .nil .nil h
      | true => exact .complete .nil h

theorem opened_menu (h : Remains (.menu :: fs) ls) : Remains fs (.menu :: ls) := by
  cases h with
  | @menu _ ls body options h =>
    have hcons := h.cons (Body.menu body options)
      (.menu :: (body.lines ++ (options.lines ++ [.close]))) (by simp [Body.lines])
    simpa using hcons

theorem opened_conditional (h : Remains (.conditional false :: fs) ls) (condition : String) :
    Remains fs (.conditional condition :: ls) := by
  cases h with
  | @conditional _ ls body branches h =>
    have hcons := h.cons (Body.conditional condition body branches)
      (.conditional condition :: (body.lines ++ (branches.lines ++ [.close])))
      (by simp [Body.lines])
    simpa using hcons

theorem option (h : Remains (.menu :: fs) ls) (text : String) :
    Remains (.menu :: fs) (.option text :: ls) := by
  cases h with
  | @menu _ ls body options h =>
    have hmenu := h.menu .nil (.cons text body options)
    simpa [Body.lines, Options.lines] using hmenu

theorem branch (h : Remains (.conditional false :: fs) ls) (condition : String) :
    Remains (.conditional false :: fs) (.branch condition :: ls) := by
  cases h with
  | @conditional _ ls body branches h =>
    have hconditional := h.conditional .nil (.cons condition body branches)
    simpa [Body.lines, Branches.lines] using hconditional

theorem otherwise (h : Remains (.conditional true :: fs) ls) :
    Remains (.conditional false :: fs) (.otherwise :: ls) := by
  cases h with
  | @complete _ ls body h =>
    have hconditional := h.conditional .nil (.otherwise body)
    simpa [Body.lines, Branches.lines] using hconditional

end Remains

section Reading
variable {ss ts us : List Sentence} {ls : List Line}

/-- The innermost block at the end of what was read, as the whole script has it. -/
theorem frames_of_innermost {l opener : Line} (hl : lines ts = lines ss ++ l :: ls)
    (h : innermost? (lines ts) ss.length = some opener) :
    ∃ i opened s, blockStack (lines ss) = i :: opened ∧ ss[i]? = some s ∧ s.line = opener ∧
      frames ss = s.frame :: (frames ss).tail := by
  obtain ⟨i, hhead, hopener⟩ := innermost?_eq_some_iff.mp h
  rw [hl, openBefore_append _ (by rw [length_lines]), ← length_lines, openBefore_length] at hhead
  cases hstack : blockStack (lines ss) with
  | nil => simp [hstack] at hhead
  | cons j opened =>
    rw [hstack] at hhead
    obtain rfl : j = i := Option.some.inj hhead
    have hlt : j < ss.length := lt_of_mem_blockStack (by simp [hstack])
    rw [hl, List.getElem?_append_left (by rwa [length_lines]), getElem?_lines] at hopener
    obtain ⟨s, hs, hline⟩ := Option.map_eq_some_iff.mp hopener
    exact ⟨j, opened, s, rfl, hs, hline, by simp [frames, frameAt, hstack, hs]⟩

theorem conditional_of_innermost (hg : Grown ss) {l : Line} {condition : String} {i : Nat}
    (hl : lines ts = lines ss ++ l :: ls)
    (h : innermost? (lines ts) ss.length = some (.conditional condition))
    (hlast : lastIndex? Sentence.isOpenConditional ss = some i)
    (hmore : hasOtherwiseIn ss i = false) :
    ∃ c opened, blockStack (lines ss) = i :: opened ∧ ss[i]? = some (.conditional c) ∧
      frames ss = .conditional false :: (frames ss).tail := by
  obtain ⟨j, opened, s, hstack, hs, hline, hframes⟩ := frames_of_innermost hl h
  have hfind := hg.matched.find_of_last Sentence.isOpenConditional_eq_otherwise hlast
  rw [hstack, List.find?_cons_of_pos (by simp [getElem?_lines, hs, hline, Line.cuts])] at hfind
  obtain rfl := Option.some.inj hfind
  cases s with
  | conditional c =>
    refine ⟨c, opened, hstack, hs, ?_⟩
    have hnone : c.otherwise.isSome = false := by
      simpa [hasOtherwiseIn, hs, Sentence.hasOtherwise] using hmore
    rw [hframes, Sentence.frame, hnone]
    rfl
  | say _ | close | menu _ | option _ _ | branch _ _ | otherwise _ | jump _ | command _ =>
    simp [Sentence.line] at hline

theorem remains_of_growAll (hg : Grown ss) (h : growAll ss ls = some ts) (hfit : Fits (lines ts))
    (hclosed : blockStack (lines ts) = []) : Remains (frames ss) ls := by
  -- the frames of what is read are those of the lines before, changed by the line at hand
  induction ls generalizing ss with
  | nil =>
    obtain rfl : ss = ts := Option.some.inj h
    rw [frames, hclosed]
    exact .whole (.body .nil)
  | cons l ls ih =>
    have hl := lines_growAll h
    rw [growAll_cons] at h
    obtain ⟨us, hu, hts⟩ := Option.bind_eq_some_iff.mp h
    have hrest := ih (hg.grow hu) hts
    have hat : (lines ts)[ss.length]? = some l := by
      rw [hl, List.getElem?_append_right (by rw [length_lines]), length_lines, Nat.sub_self]
      rfl
    cases l with
    | say line =>
      obtain rfl := Option.some.inj hu
      rw [frames_plain rfl (by simp [Sentence.line])] at hrest
      exact hrest.cons (Body.say line) [.say line] fun b => rfl
    | jump label =>
      obtain rfl := Option.some.inj hu
      rw [frames_plain rfl (by simp [Sentence.line])] at hrest
      exact hrest.cons (Body.jump label) [.jump label] fun b => rfl
    | menu =>
      obtain rfl := Option.some.inj hu
      rw [frames_opener rfl] at hrest
      exact hrest.opened_menu
    | conditional condition =>
      obtain rfl := Option.some.inj hu
      rw [frames_opener rfl] at hrest
      exact hrest.opened_conditional condition
    | close =>
      obtain rfl := Option.some.inj hu
      rw [frames_growClose] at hrest
      exact hrest.close
    | option text =>
      obtain ⟨i, _, rfl⟩ := Option.map_eq_some_iff.mp hu
      obtain ⟨_, _, s, _, _, hline, hframes⟩ :=
        frames_of_innermost hl (hfit.option_in_menu ss.length text hat)
      have hmenu : s.frame = .menu := by cases s <;> simp_all [Sentence.line, Sentence.frame]
      have hframe : ∀ s : Sentence, (s.addOption text (ss.length + 1)).frame = s.frame := by
        intro s
        cases s <;> rfl
      rw [grow_modify_frames (Sentence.line_addOption _ _) hframe rfl (by simp [Sentence.line]),
        hframes, hmenu] at hrest
      rw [hframes, hmenu]
      exact hrest.option text
    | branch condition =>
      obtain ⟨i, hlast, hmore, rfl⟩ := growBranch_eq_some hu
      obtain ⟨c, hinner⟩ := hfit.branch_in_conditional ss.length condition hat
      obtain ⟨_, _, _, _, hframes⟩ := conditional_of_innermost hg hl hinner hlast hmore
      have hframe : ∀ s : Sentence, (s.addBranch condition (ss.length + 1)).frame = s.frame := by
        intro s
        cases s <;> rfl
      rw [grow_modify_frames (Sentence.line_addBranch _ _) hframe rfl (by simp [Sentence.line]),
        hframes] at hrest
      rw [hframes]
      exact hrest.branch condition
    | otherwise =>
      obtain ⟨i, hlast, hmore, rfl⟩ := growBranch_eq_some hu
      obtain ⟨c, hinner⟩ := hfit.otherwise_in_conditional ss.length hat
      obtain ⟨_, _, hstack, hi, hframes⟩ := conditional_of_innermost hg hl hinner hlast hmore
      rw [frames_plain rfl (by simp [Sentence.line]), frames_setOtherwise hstack hi] at hrest
      rw [hframes]
      exact hrest.otherwise
    | command c => simp [grow] at hu

end Reading

theorem exists_outline {ss : List Sentence} (hg : Grown ss) (h : WellNested (lines ss)) :
    ∃ o : Outline, o.lines = lines ss := by
  have hremains := remains_of_growAll grown_nil hg h.toFits h.closed
  generalize hls : lines ss = ls at hremains
  cases hremains with
  | whole o => exact ⟨o, rfl⟩

end Fabula.Script
