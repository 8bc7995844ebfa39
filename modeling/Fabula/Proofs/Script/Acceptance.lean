import Fabula.Proofs.Script.Frames
import Fabula.Proofs.Script.Reading
import Fabula.Proofs.Text.Trim

/-!
# Which texts are accepted

An automaton reads a text line by line and keeps nothing but the frames of the open blocks. It
refuses the line that the compiler refuses, for the same reason, although the compiler has no
stack and finds the block that a line belongs to by searching backward.
-/

namespace Fabula.Script

/-- The innermost conditional gets one more branch. After its last branch it takes no more. -/
def Frame.cut (header : String) (last : Bool) : List Frame → Except ParseError (List Frame)
  | [] => .error (.noOpenIf header)
  | .menu :: fs => (cut header last fs).map (.menu :: ·)
  | .conditional true :: _ => .error (.elseAlreadyDefined header)
  | .conditional false :: fs => .ok (.conditional last :: fs)

/-- The open blocks after one more line. -/
def Frame.step (fs : List Frame) : Line → Except ParseError (List Frame)
  | .menu => .ok (.menu :: fs)
  | .conditional _ => .ok (.conditional false :: fs)
  | .close => .ok fs.tail
  | .option text => if .menu ∈ fs then .ok fs else .error (.optionOutsideMenu text)
  | .branch _ => cut "Elif" false fs
  | .otherwise => cut "Else" true fs
  | _ => .ok fs

def Frame.hear (fs : List Frame) : Reading → Except ParseError (List Frame)
  | .line l => step fs l
  | _ => .ok fs

/-- The automaton's verdict on a line of the text. -/
def judge (fs : List Frame) (raw : List Char) : Except ParseError (List Frame) :=
  (read (Text.trim raw)).bind (Frame.hear fs)

/-- The automaton's verdict on lines of the text, up to the first that it refuses. -/
def judgeAll (fs : List Frame) (raws : List (List Char)) : Except ParseError (List Frame) :=
  raws.foldlM judge fs

/-- The first line that the automaton refuses has this number, counted from 1. -/
inductive RefusedAt : List Frame → List (List Char) → Nat → ParseError → Prop
  | here {fs raw kind} (after : List (List Char)) :
      judge fs raw = .error kind → RefusedAt fs (raw :: after) 1 kind
  | later {fs gs raw after number kind} :
      judge fs raw = .ok gs → RefusedAt gs after number kind →
        RefusedAt fs (raw :: after) (number + 1) kind

section Verdicts
variable {fs gs : List Frame} {raw : List Char} {raws : List (List Char)} {number : Nat}
  {kind : ParseError}

@[simp] theorem judgeAll_nil (fs : List Frame) : judgeAll fs [] = .ok fs := rfl

theorem judgeAll_cons (fs : List Frame) (raw : List Char) (raws : List (List Char)) :
    judgeAll fs (raw :: raws) = (judge fs raw).bind fun gs => judgeAll gs raws := rfl

theorem judge_trim (fs : List Frame) (raw : List Char) :
    judge fs (Text.trim raw) = judge fs raw := by
  rw [judge, judge, Text.trim_trim]

namespace RefusedAt

theorem not_accepted (h : RefusedAt fs raws number kind) : judgeAll fs raws ≠ .ok gs := by
  induction h with
  | here after hraw =>
    rw [judgeAll_cons, hraw]
    simp [Except.bind]
  | later hraw _ ih =>
    rw [judgeAll_cons, hraw]
    exact ih

theorem unique {number' : Nat} {kind' : ParseError} (h : RefusedAt fs raws number kind)
    (h' : RefusedAt fs raws number' kind') : number = number' ∧ kind = kind' := by
  induction h generalizing number' with
  | here after hraw =>
    cases h' with
    | here _ hraw' =>
      rw [hraw] at hraw'
      exact ⟨rfl, Except.error.inj hraw'⟩
    | later hraw' _ =>
      rw [hraw] at hraw'
      cases hraw'
  | later hraw _ ih =>
    cases h' with
    | here _ hraw' =>
      rw [hraw] at hraw'
      cases hraw'
    | later hraw' hafter' =>
      rw [hraw] at hraw'
      obtain rfl := Except.ok.inj hraw'
      obtain ⟨rfl, rfl⟩ := ih hafter'
      exact ⟨rfl, rfl⟩

theorem append (h : RefusedAt fs raws number kind) (more : List (List Char)) :
    RefusedAt fs (raws ++ more) number kind := by
  induction h with
  | here after hraw => exact .here _ hraw
  | later hraw _ ih => exact .later hraw ih

theorem map_trim_iff :
    RefusedAt fs (raws.map Text.trim) number kind ↔ RefusedAt fs raws number kind := by
  induction raws generalizing fs number with
  | nil => exact ⟨nofun, nofun⟩
  | cons raw raws ih =>
    rw [List.map_cons]
    constructor
    · intro h
      cases h with
      | here _ hraw => exact .here _ (judge_trim fs raw ▸ hraw)
      | later hraw hafter => exact .later (judge_trim fs raw ▸ hraw) (ih.mp hafter)
    · intro h
      cases h with
      | here _ hraw => exact .here _ ((judge_trim fs raw).trans hraw)
      | later hraw hafter => exact .later ((judge_trim fs raw).trans hraw) (ih.mpr hafter)

end RefusedAt

end Verdicts

section Search
variable {ss : List Sentence} {i : Nat}

theorem frameAt_eq_conditional_iff {complete : Bool} : frameAt ss i = .conditional complete ↔
    ∃ c, ss[i]? = some (.conditional c) ∧ c.otherwise.isSome = complete := by
  unfold frameAt
  cases ss[i]? with
  | none => simp
  | some s => cases s <;> simp [Sentence.frame]

/-- An open block is a menu or a conditional. -/
theorem Matched.frameAt_eq_menu_iff (h : Matched ss) (hi : i ∈ blockStack (lines ss))
    (text : String) :
    frameAt ss i = .menu ↔ ((lines ss)[i]?.any (Line.option text).cuts) = true := by
  obtain ⟨s, hs, ho⟩ := h.openAt_iff.mpr hi
  rw [frameAt, getElem?_lines, hs]
  cases s <;> simp_all [Sentence.isOpen, Sentence.isOpenMenu, Sentence.isOpenConditional,
    Sentence.frame, Sentence.line, Line.cuts]

theorem Matched.find?_eq_lastIndex? (h : Matched ss) {l : Line} {p : Sentence → Bool}
    (hp : ∀ s, p s = (s.isOpen && l.cuts s.line)) :
    (blockStack (lines ss)).find? (fun k => (lines ss)[k]?.any l.cuts) = lastIndex? p ss := by
  cases hi : lastIndex? p ss with
  | some i => exact h.find_of_last hp hi
  | none =>
    rw [List.find?_eq_none]
    intro k hk
    obtain ⟨s, hs, ho⟩ := h.openAt_iff.mpr hk
    have hnone := lastIndex?_eq_none_iff.mp hi s (List.mem_of_getElem? hs)
    rw [hp, ho, Bool.true_and] at hnone
    simp [getElem?_lines, hs, hnone]

theorem Matched.menu_mem_frames_iff (h : Matched ss) :
    .menu ∈ frames ss ↔ ∃ i, lastIndex? Sentence.isOpenMenu ss = some i := by
  rw [← h.find?_eq_lastIndex? (Sentence.isOpenMenu_eq ""), ← Option.isSome_iff_exists,
    List.find?_isSome, frames, List.mem_map]
  refine exists_congr fun i => and_congr_right fun hi => ?_
  exact h.frameAt_eq_menu_iff hi ""

theorem frameAt_modify_of_ne {j : Nat} (h : i ≠ j) (f : Sentence → Sentence) :
    frameAt (ss.modify i f) j = frameAt ss j := by
  rw [frameAt, frameAt, List.getElem?_modify_ne _ _ h]

/-- The nearest conditional among the frames is the one that the search finds. -/
theorem cut_map_frameAt {header : String} {last : Bool} {f : Sentence → Sentence}
    (hf : ∀ c, c.otherwise = none → (f (.conditional c)).frame = .conditional last)
    (is : List Nat) (hnodup : is.Nodup) :
    Frame.cut header last (is.map (frameAt ss)) =
      match is.find? fun k => (lines ss)[k]?.any Line.otherwise.cuts with
      | none => .error (.noOpenIf header)
      | some i =>
        if hasOtherwiseIn ss i then .error (.elseAlreadyDefined header)
        else .ok (is.map (frameAt (ss.modify i f))) := by
  induction is with
  | nil => rfl
  | cons i is ih =>
    obtain ⟨hi, hrest⟩ := List.nodup_cons.mp hnodup
    cases hframe : frameAt ss i with
    | conditional complete =>
      obtain ⟨c, hc, rfl⟩ := frameAt_eq_conditional_iff.mp hframe
      have hfind : (i :: is).find? (fun k => (lines ss)[k]?.any Line.otherwise.cuts) = some i :=
        List.find?_cons_of_pos (by simp [getElem?_lines, hc, Sentence.line, Line.cuts])
      simp only [hfind, List.map_cons, hframe, hasOtherwiseIn, hc, Option.any_some,
        Sentence.hasOtherwise]
      cases ho : c.otherwise with
      | some target => rfl
      | none =>
        have hhere : frameAt (ss.modify i f) i = .conditional last := by
          simp [frameAt, hc, hf c ho]
        have hbelow : is.map (frameAt (ss.modify i f)) = is.map (frameAt ss) :=
          List.map_congr_left fun j hj =>
            frameAt_modify_of_ne (fun hij : i = j => hi (hij ▸ hj)) f
        simp [Frame.cut, hhere, hbelow]
    | menu =>
      have hpass : ¬ ((lines ss)[i]?.any Line.otherwise.cuts) = true := by
        rw [getElem?_lines]
        intro hany
        obtain ⟨l, hl, hcuts⟩ := (Option.any_eq_true _ _).mp hany
        obtain ⟨s, hs, rfl⟩ := Option.map_eq_some_iff.mp hl
        cases s <;> simp_all [Sentence.line, Line.cuts, frameAt, Sentence.frame]
      have hfind : (i :: is).find? (fun k => (lines ss)[k]?.any Line.otherwise.cuts) =
          is.find? fun k => (lines ss)[k]?.any Line.otherwise.cuts :=
        List.find?_cons_of_neg hpass
      rw [List.map_cons, hframe, Frame.cut, ih hrest, hfind]
      cases hj : is.find? fun k => (lines ss)[k]?.any Line.otherwise.cuts with
      | none => rfl
      | some j =>
        have hhere : frameAt (ss.modify j f) i = .menu := by
          have hji : j ≠ i := by
            rintro rfl
            exact hi (List.mem_of_find?_eq_some hj)
          rw [frameAt_modify_of_ne hji, hframe]
        cases hmore : hasOtherwiseIn ss j <;> simp [hmore, Except.map, hhere]

end Search

section Step
variable {ss : List Sentence}

theorem Matched.cut_frames (h : Matched ss) (header : String) {last : Bool}
    {f : Nat → Sentence → Sentence} {marker : Nat → Sentence}
    (hf : ∀ target c, c.otherwise = none →
      (f target (.conditional c)).frame = .conditional last)
    (hline : ∀ target s, (f target s).line = s.line)
    (hmarker : ∀ i, (marker i).line.isOpener = false ∧ (marker i).line ≠ .close) :
    Frame.cut header last (frames ss) =
      match growBranch ss f marker with
      | some ts => .ok (frames ts)
      | none => .error (branchRefusal header ss) := by
  have hnodup : (blockStack (lines ss)).Nodup :=
    (blockStack_sorted (lines ss)).1.imp fun hlt => Nat.ne_of_gt hlt
  rw [frames, cut_map_frameAt (hf (ss.length + 1)) _ hnodup,
    h.find?_eq_lastIndex? Sentence.isOpenConditional_eq_otherwise, growBranch, branchRefusal]
  cases lastIndex? Sentence.isOpenConditional ss with
  | none => rfl
  | some i =>
    cases hmore : hasOtherwiseIn ss i with
    | true => simp [hmore]
    | false =>
      have hframes : frames (ss.modify i (f (ss.length + 1)) ++ [marker i]) =
          (blockStack (lines ss)).map (frameAt (ss.modify i (f (ss.length + 1)))) := by
        rw [frames_plain (hmarker i).1 (hmarker i).2, frames, lines_modify (hline _)]
      simp [hmore, hframes]

/-- The automaton takes a line as the sentences before it do. -/
theorem Matched.step_frames (h : Matched ss) {l : Line} (hl : ∀ c, l ≠ .command c) :
    Frame.step (frames ss) l =
      match grow ss l with
      | some ts => .ok (frames ts)
      | none => .error (refusal ss l) := by
  cases l with
  | say line => exact congrArg Except.ok (frames_plain rfl (by simp [Sentence.line])).symm
  | jump label => exact congrArg Except.ok (frames_plain rfl (by simp [Sentence.line])).symm
  | menu => exact congrArg Except.ok (frames_opener (s := .menu ⟨[], none⟩) rfl).symm
  | conditional c =>
    exact congrArg Except.ok (frames_opener (s := .conditional ⟨c, [], none, none⟩) rfl).symm
  | close => exact congrArg Except.ok (frames_growClose ss).symm
  | option text =>
    have hmenu := h.menu_mem_frames_iff
    simp only [Frame.step, grow, growOption, refusal]
    cases hi : lastIndex? Sentence.isOpenMenu ss with
    | none => simp [hmenu, hi]
    | some i =>
      have hframes : frames (ss.modify i (Sentence.addOption text (ss.length + 1)) ++
          [.option text i]) = frames ss :=
        grow_modify_frames (Sentence.line_addOption _ _) (fun s => by cases s <;> rfl) rfl
          (by simp [Sentence.line])
      simp [hmenu, hi, hframes]
  | branch c =>
    exact h.cut_frames "Elif" (fun _ d hd => by simp [Sentence.addBranch, Sentence.frame, hd])
      (fun _ => Sentence.line_addBranch _ _) fun _ => ⟨rfl, by simp [Sentence.line]⟩
  | otherwise =>
    exact h.cut_frames "Else" (fun _ d _ => by simp [Sentence.setOtherwise, Sentence.frame])
      (fun _ => Sentence.line_setOtherwise _) fun _ => ⟨rfl, by simp [Sentence.line]⟩
  | command c => exact absurd rfl (hl c)

end Step

theorem Builtin.reading_ne_command {b : Builtin} {content : List Char} {l : Line}
    (h : b.reading content = .ok (.line l)) (c : Command) : l ≠ .command c := by
  rintro rfl
  cases b with
  | char | close | menu | otherwise | jump => simp [Builtin.reading] at h
  | menuItem | ifBlock | elif =>
    simp only [Builtin.reading] at h
    split at h <;> simp at h
  | say =>
    simp only [Builtin.reading, sayIn] at h
    split at h <;> simp at h

theorem read_ne_command {cs : List Char} {l : Line} (h : read cs = .ok (.line l))
    (c : Command) : l ≠ .command c := by
  unfold read at h
  split at h
  · simp at h
  · split at h
    · simp at h
    · split at h
      · simp at h
      · exact Builtin.reading_ne_command h c
  · exact Builtin.reading_ne_command h c
  · exact Builtin.reading_ne_command h c
  · exact Builtin.reading_ne_command h c

namespace Gist
variable {g g' : Gist}

theorem judge_frames (h : Grown g.sentences) (raw : List Char) :
    judge (frames g.sentences) raw = (g.takeLine raw).map fun g => frames g.sentences := by
  unfold judge takeLine
  cases hread : read (Text.trim raw) with
  | error kind => rfl
  | ok r =>
    cases r with
    | nothing => rfl
    | characters names => rfl
    | line l =>
      have hstep := h.matched.step_frames (read_ne_command hread)
      simp only [Except.bind, Frame.hear, hstep, take]
      cases grow g.sentences l <;> rfl

theorem grown_takeLine {raw : List Char} (h : Grown g.sentences)
    (htake : g.takeLine raw = .ok g') : Grown g'.sentences := by
  obtain ⟨r, _, hr⟩ := takeLine_eq_ok htake
  rcases take_sentences hr with hsame | ⟨l, hl⟩
  · rw [hsame]
    exact h
  · exact h.grow hl

theorem judgeAll_of_takeLines {raws : List (List Char)} {number : Nat}
    (h : Grown g.sentences) (htake : g.takeLines number raws = .ok g') :
    judgeAll (frames g.sentences) raws = .ok (frames g'.sentences) := by
  induction raws generalizing number g with
  | nil =>
    obtain rfl := Except.ok.inj htake
    rfl
  | cons raw raws ih =>
    have hjudge := judge_frames h raw
    simp only [takeLines] at htake
    cases hline : g.takeLine raw with
    | error kind => simp [hline] at htake
    | ok taken =>
      rw [hline] at htake hjudge
      rw [judgeAll_cons, hjudge]
      exact ih (grown_takeLine h hline) htake

theorem refusedAt_of_takeLines {raws : List (List Char)} {number : Nat} {e : CompileError}
    (h : Grown g.sentences) (htake : g.takeLines number raws = .error e) :
    e.source = g.source ∧
      ∃ n, e.line + 1 = number + n ∧ RefusedAt (frames g.sentences) raws n e.kind := by
  induction raws generalizing number g with
  | nil => simp [takeLines] at htake
  | cons raw raws ih =>
    have hjudge := judge_frames h raw
    simp only [takeLines] at htake
    cases hline : g.takeLine raw with
    | error kind =>
      rw [hline] at htake hjudge
      obtain rfl := Except.error.inj htake
      exact ⟨rfl, 1, rfl, .here raws hjudge⟩
    | ok taken =>
      rw [hline] at htake hjudge
      obtain ⟨_, _, hr⟩ := takeLine_eq_ok hline
      obtain ⟨hsource, n, hn, hrefused⟩ := ih (grown_takeLine h hline) htake
      exact ⟨hsource.trans (take_source hr), n + 1, by omega, .later hjudge hrefused⟩

end Gist

/-- The lines of a text are the first of another's, blanks at their ends aside. -/
def Begins (text whole : String) : Prop :=
  (Text.lines text.toList).map Text.trim <+: (Text.lines whole.toList).map Text.trim

namespace Compiler
variable {source text : String}

theorem judgeAll_of_compile {script : Script} (h : standard.compile source text = .ok script) :
    judgeAll [] (Text.lines text.toList) = .ok (frames script.sentences) := by
  have hgist := gist_compile source text
  rw [h] at hgist
  exact Gist.judgeAll_of_takeLines grown_nil hgist.symm

theorem refusedAt_of_compile {e : CompileError} (h : standard.compile source text = .error e) :
    e.source = source ∧ RefusedAt [] (Text.lines text.toList) e.line e.kind := by
  have hgist := gist_compile source text
  rw [h] at hgist
  obtain ⟨hsource, n, hn, hrefused⟩ := Gist.refusedAt_of_takeLines grown_nil hgist.symm
  obtain rfl : e.line = n := by omega
  exact ⟨hsource, hrefused⟩

/-- The compiler's verdict on a text is the automaton's, which sees no later line. -/
structure Judged (source text : String) : Prop where
  refuses : ∀ e, standard.compile source text = .error e ↔
    e.source = source ∧ RefusedAt [] (Text.lines text.toList) e.line e.kind
  accepts : (∃ script, standard.compile source text = .ok script) ↔
    ∃ fs, judgeAll [] (Text.lines text.toList) = .ok fs
  accepts_beginning : ∀ whole script, Begins text whole →
    standard.compile source whole = .ok script →
      ∃ first, standard.compile source text = .ok first
  refuses_whole : ∀ whole e, Begins text whole →
    standard.compile source text = .error e → standard.compile source whole = .error e

theorem compile_eq_error_iff (e : CompileError) : standard.compile source text = .error e ↔
    e.source = source ∧ RefusedAt [] (Text.lines text.toList) e.line e.kind := by
  constructor
  · exact refusedAt_of_compile
  · rintro ⟨hsource, hrefused⟩
    cases hcompile : standard.compile source text with
    | ok script => exact absurd (judgeAll_of_compile hcompile) hrefused.not_accepted
    | error e' =>
      obtain ⟨hsource', hrefused'⟩ := refusedAt_of_compile hcompile
      obtain ⟨hline, hkind⟩ := hrefused'.unique hrefused
      obtain ⟨_, _, _⟩ := e
      obtain ⟨_, _, _⟩ := e'
      simp_all

theorem compile_whole_eq_error {whole : String} {e : CompileError} (hbegins : Begins text whole)
    (h : standard.compile source text = .error e) : standard.compile source whole = .error e := by
  obtain ⟨hsource, hrefused⟩ := refusedAt_of_compile h
  obtain ⟨more, hmore⟩ := hbegins
  refine (compile_eq_error_iff e).mpr ⟨hsource, ?_⟩
  rw [← RefusedAt.map_trim_iff, ← hmore]
  exact (RefusedAt.map_trim_iff.mpr hrefused).append more

theorem judged (source text : String) : Judged source text where
  refuses := compile_eq_error_iff
  accepts := by
    constructor
    · rintro ⟨script, h⟩
      exact ⟨_, judgeAll_of_compile h⟩
    · rintro ⟨fs, h⟩
      cases hcompile : standard.compile source text with
      | ok script => exact ⟨script, rfl⟩
      | error e => exact absurd h (refusedAt_of_compile hcompile).2.not_accepted
  accepts_beginning whole script hbegins h := by
    cases hcompile : standard.compile source text with
    | ok first => exact ⟨first, rfl⟩
    | error e =>
      rw [compile_whole_eq_error hbegins hcompile] at h
      cases h
  refuses_whole _ _ hbegins h := compile_whole_eq_error hbegins h

/-- A menu stands between the conditional and its second `[Else]`. -/
theorem judged_second_otherwise :
    RefusedAt [] (Text.lines "[if] x\n[Else]\n[Menu]\n- a\n [ELSE] \n/".toList) 5
        (.elseAlreadyDefined "Else") ∧
      ∃ first, standard.compile "t" "[if] x\n[Else]\n[Menu]\n- a" = .ok first := by
  have hcompile : standard.compile "t" "[if] x\n[Else]\n[Menu]\n- a\n [ELSE] \n/" =
      .error ⟨"t", 5, .elseAlreadyDefined "Else"⟩ := by rfl
  have hfirst : ∃ fs, judgeAll [] (Text.lines "[if] x\n[Else]\n[Menu]\n- a".toList) = .ok fs :=
    ⟨[.menu, .conditional true], by rfl⟩
  exact ⟨((judged "t" _).refuses _).mp hcompile |>.2, (judged "t" _).accepts.mpr hfirst⟩

end Compiler

end Fabula.Script
