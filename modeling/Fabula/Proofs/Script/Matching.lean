import Fabula.Proofs.Script.Brackets
import Fabula.Proofs.Script.Compiled

/-!
# Blocks of a compiled script

The compiler finds the block that a `/` ends by searching backward for the last opener without an
exit. The exits found that way are those of a bracket stack, so the blocks of every accepted
script are nested or disjoint.
-/

namespace Fabula.Script

namespace Sentence

/-- The closer of the block that this sentence opens, when it has one. -/
def exit? : Sentence → Option Nat
  | menu m => m.exit
  | conditional c => c.exit
  | _ => none

theorem isOpen_iff (s : Sentence) : s.isOpen = true ↔ s.line.isOpener = true ∧ s.exit? = none := by
  cases s <;> simp [isOpen, isOpenMenu, isOpenConditional, line, Line.isOpener, exit?]

@[simp] theorem exit?_addOption (text : String) (target : Nat) (s : Sentence) :
    (s.addOption text target).exit? = s.exit? := by
  cases s <;> rfl

@[simp] theorem exit?_addBranch (condition : String) (target : Nat) (s : Sentence) :
    (s.addBranch condition target).exit? = s.exit? := by
  cases s <;> rfl

@[simp] theorem exit?_setOtherwise (target : Nat) (s : Sentence) :
    (s.setOtherwise target).exit? = s.exit? := by
  cases s <;> rfl

theorem exit?_closeAt {s : Sentence} (h : s.isOpen = true) (exit : Nat) :
    (s.closeAt exit).exit? = some exit := by
  cases s <;> simp_all [isOpen, isOpenMenu, isOpenConditional, closeAt, exit?]

end Sentence

/-- The closer of the block opened at an index. -/
def exitAt (ss : List Sentence) (i : Nat) : Option Nat := ss[i]?.bind Sentence.exit?

/-- The sentence at an index opens a block that is never closed. -/
def OpenAt (ss : List Sentence) (i : Nat) : Prop := ∃ s, ss[i]? = some s ∧ s.isOpen = true

/-- The exits are those that the bracket stack gives. -/
def Matched (ss : List Sentence) : Prop := ∀ i e, exitAt ss i = some e ↔ Closes (lines ss) i e

section Views
variable {ss : List Sentence} {f : Sentence → Sentence} {s : Sentence}

theorem exitAt_append_singleton (h : s.exit? = none) (i : Nat) :
    exitAt (ss ++ [s]) i = exitAt ss i := by
  unfold exitAt
  rw [List.getElem?_append]
  split
  · rfl
  · rename_i hi
    rw [List.getElem?_eq_none (by omega : ss.length ≤ i), List.getElem?_singleton]
    split <;> simp [h]

theorem exitAt_modify (h : ∀ s, (f s).exit? = s.exit?) (i j : Nat) :
    exitAt (ss.modify i f) j = exitAt ss j := by
  unfold exitAt
  rw [List.getElem?_modify]
  cases ss[j]? with
  | none => rfl
  | some t => by_cases hij : i = j <;> simp [hij, h]

theorem exitAt_modify_closeAt {i : Nat} (hs : ss[i]? = some s) (ho : s.isOpen = true) (e j : Nat) :
    exitAt (ss.modify i (Sentence.closeAt e)) j = if i = j then some e else exitAt ss j := by
  unfold exitAt
  split
  · rename_i hij
    subst hij
    simp [hs, Sentence.exit?_closeAt ho]
  · rename_i hij
    rw [List.getElem?_modify_ne _ _ hij]

theorem getElem?_lines (ss : List Sentence) (i : Nat) :
    (lines ss)[i]? = ss[i]?.map Sentence.line := List.getElem?_map

theorem openAt_iff_opensAt {i : Nat} :
    OpenAt ss i ↔ OpensAt (lines ss) i ∧ exitAt ss i = none := by
  unfold OpenAt OpensAt exitAt
  rw [getElem?_lines]
  cases ss[i]? with
  | none => simp
  | some s => simp [Sentence.isOpen_iff]

end Views

theorem closes_concat {ls : List Line} {l : Line} {i e : Nat} :
    Closes (ls ++ [l]) i e ↔
      Closes ls i e ∨ l = .close ∧ e = ls.length ∧ (blockStack ls).head? = some i := by
  by_cases he : e < ls.length
  · unfold Closes
    rw [List.getElem?_append_left he, openBefore_append _ (Nat.le_of_lt he)]
    exact ⟨.inl, fun h => h.resolve_right fun h => by omega⟩
  · constructor
    · rintro ⟨hl, hh⟩
      have hlt := (List.getElem?_eq_some_iff.mp hl).1
      simp only [List.length_append, List.length_singleton] at hlt
      obtain rfl : e = ls.length := by omega
      rw [openBefore_append _ (Nat.le_refl _), openBefore_length] at hh
      exact .inr ⟨by simpa using hl, rfl, hh⟩
    · rintro (h | ⟨rfl, rfl, hh⟩)
      · have hlt := (List.getElem?_eq_some_iff.mp h.1).1
        omega
      · refine ⟨by simp, ?_⟩
        rwa [openBefore_append _ (Nat.le_refl _), openBefore_length]

namespace Matched
variable {ss ts : List Sentence} {i : Nat}

theorem openAt_iff (h : Matched ss) : OpenAt ss i ↔ i ∈ blockStack (lines ss) := by
  rw [openAt_iff_opensAt, ← openBefore_length, mem_openBefore_iff]
  constructor
  · rintro ⟨ho, hnone⟩
    obtain ⟨l, hl, _⟩ := id ho
    refine ⟨ho, (List.getElem?_eq_some_iff.mp hl).1, fun e he => ?_⟩
    rw [(h i e).mpr he] at hnone
    simp at hnone
  · rintro ⟨ho, _, hlate⟩
    refine ⟨ho, ?_⟩
    cases he : exitAt ss i with
    | none => rfl
    | some e =>
      have hc := (h i e).mp he
      have := hlate e hc
      have := (List.getElem?_eq_some_iff.mp hc.1).1
      omega

/-- Searching backward finds the top of the bracket stack. -/
theorem head_of_last (h : Matched ss) (hi : lastIndex? Sentence.isOpen ss = some i) :
    (blockStack (lines ss)).head? = some i := by
  obtain ⟨⟨s, hs, ho⟩, hafter⟩ := lastIndex?_eq_some_iff.mp hi
  have hm : i ∈ blockStack (lines ss) := h.openAt_iff.mp ⟨s, hs, ho⟩
  have hsorted := (blockStack_sorted (lines ss)).1
  cases hstack : blockStack (lines ss) with
  | nil => simp [hstack] at hm
  | cons k rest =>
    rw [hstack] at hm hsorted
    obtain ⟨t, ht, hto⟩ := h.openAt_iff.mpr (show k ∈ blockStack (lines ss) by simp [hstack])
    have hki : ¬ i < k := fun hlt => by
      have := hafter k t hlt ht
      simp [hto] at this
    rcases List.mem_cons.mp hm with rfl | hm
    · rfl
    · have := (List.pairwise_cons.mp hsorted).1 i hm
      omega

theorem stack_of_allClosed (h : Matched ss) (hclosed : AllClosed ss) :
    blockStack (lines ss) = [] := by
  apply List.eq_nil_iff_forall_not_mem.mpr
  intro i hi
  obtain ⟨s, hs, ho⟩ := h.openAt_iff.mpr hi
  simp [hclosed s (List.mem_of_getElem? hs)] at ho

theorem extend (h : Matched ss) {l : Line} (hexit : ∀ i, exitAt ts i = exitAt ss i)
    (hl : lines ts = lines ss ++ [l]) (hne : l ≠ .close) : Matched ts := by
  intro i e
  rw [hexit, h i e, hl, closes_concat]
  exact ⟨.inl, fun h => h.resolve_right fun h => hne h.1⟩

theorem append (h : Matched ss) {s : Sentence} (hs : s.exit? = none) (hne : s.line ≠ .close) :
    Matched (ss ++ [s]) :=
  h.extend (exitAt_append_singleton hs) (lines_append _ _) hne

theorem attach (h : Matched ss) {f : Sentence → Sentence} {s : Sentence}
    (hf : ∀ s, (f s).exit? = s.exit?) (hline : ∀ s, (f s).line = s.line) (hs : s.exit? = none)
    (hne : s.line ≠ .close) : Matched (ss.modify i f ++ [s]) := by
  refine h.extend (fun j => ?_) (l := s.line) ?_ hne
  · rw [exitAt_append_singleton hs, exitAt_modify hf]
  · rw [lines_append, lines_modify hline]
    rfl

theorem close (h : Matched ss) (hi : lastIndex? Sentence.isOpen ss = some i) :
    Matched (ss.modify i (Sentence.closeAt ss.length) ++ [.close]) := by
  obtain ⟨s, hs, ho⟩ := (lastIndex?_eq_some_iff.mp hi).1
  have hhead := h.head_of_last hi
  intro j e
  rw [exitAt_append_singleton rfl, exitAt_modify_closeAt hs ho, lines_append,
    lines_modify (Sentence.line_closeAt _), lines_cons, lines_nil, closes_concat, length_lines,
    ← h j e]
  by_cases hij : i = j
  · subst hij
    have hold : exitAt ss i = none := (openAt_iff_opensAt.mp ⟨s, hs, ho⟩).2
    simp [hold, hhead, Sentence.line, eq_comm]
  · simp [hij, hhead]

theorem grows (h : Matched ss) (hg : Grows ss ts) : Matched ts := by
  cases hg with
  | say l => exact h.append rfl (by simp [Sentence.line])
  | jump label => exact h.append rfl (by simp [Sentence.line])
  | menu => exact h.append rfl (by simp [Sentence.line])
  | conditional c => exact h.append rfl (by simp [Sentence.line])
  | stray hclosed =>
    intro i e
    rw [exitAt_append_singleton rfl, h i e, lines_append, lines_cons, lines_nil, closes_concat,
      h.stack_of_allClosed hclosed]
    simp
  | close hi => exact h.close hi
  | option text _ =>
    exact h.attach (Sentence.exit?_addOption _ _) (Sentence.line_addOption _ _) rfl
      (by simp [Sentence.line])
  | branch c _ _ =>
    exact h.attach (Sentence.exit?_addBranch _ _) (Sentence.line_addBranch _ _) rfl
      (by simp [Sentence.line])
  | otherwise _ _ =>
    exact h.attach (Sentence.exit?_setOtherwise _) (Sentence.line_setOtherwise _) rfl
      (by simp [Sentence.line])

end Matched

theorem Grown.matched {ss : List Sentence} (h : Grown ss) : Matched ss :=
  h.induction (P := Matched) (by intro i e; simp [exitAt, Closes]) fun _ hm hg => hm.grows hg

/-- Blocks are brackets: `/` closes, in the order of a stack, what menus and conditionals open. -/
structure Bracketed (ss : List Sentence) : Prop where
  exit_is_close : ∀ i e, exitAt ss i = some e → i < e ∧ e < ss.length ∧ ss[e]? = some .close
  exit_injective : ∀ i j e, exitAt ss i = some e → exitAt ss j = some e → i = j
  nested_or_disjoint : ∀ i j e f, i < j → exitAt ss i = some e → exitAt ss j = some f →
    e < j ∨ f < e
  unclosed_outside : ∀ i j e, exitAt ss i = some e → OpenAt ss j → ¬ (i < j ∧ j < e)
  exits_popped : ∀ i e, exitAt ss i = some e ↔ Closes (lines ss) i e
  unclosed_left : ∀ i, OpenAt ss i ↔ i ∈ blockStack (lines ss)

theorem sentence_of_line_close {ss : List Sentence} {e : Nat}
    (h : (lines ss)[e]? = some .close) : ss[e]? = some .close := by
  rw [getElem?_lines] at h
  obtain ⟨s, hs, hl⟩ := Option.map_eq_some_iff.mp h
  cases s <;> simp_all [Sentence.line]

theorem Matched.bracketed {ss : List Sentence} (h : Matched ss) : Bracketed ss where
  exit_is_close i e he := by
    have hc := (h i e).mp he
    have hs := sentence_of_line_close hc.1
    exact ⟨hc.lt, (List.getElem?_eq_some_iff.mp hs).1, hs⟩
  exit_injective i j e hi hj := ((h i e).mp hi).opener_unique ((h j e).mp hj)
  nested_or_disjoint i j e f hij hi hj :=
    ((h i e).mp hi).nested_or_disjoint ((h j f).mp hj) hij
  unclosed_outside i j e hi hj := by
    rintro ⟨hij, hje⟩
    obtain ⟨ho, hnone⟩ := openAt_iff_opensAt.mp hj
    obtain ⟨f, hf, _⟩ := ((h i e).mp hi).closes_inside hij hje ho
    rw [(h j f).mpr hf] at hnone
    simp at hnone
  exits_popped := h
  unclosed_left _ := h.openAt_iff

theorem bracketed_of_compile {source text : String} {script : Script}
    (h : Compiler.standard.compile source text = .ok script) : Bracketed script.sentences :=
  (Compiler.grown_of_compile h).matched.bracketed

/-- A menu with a conditional inside it, a stray closer and a menu that is never closed. -/
theorem bracketed_menu_around_conditional : ∃ script,
    Compiler.standard.compile "t" "[Menu]\n- a\n[If] 1==1\n: in\n/\n/\n/\n[Menu]" = .ok script ∧
      Bracketed script.sentences ∧ exitAt script.sentences 0 = some 5 := by
  have h : Compiler.standard.compile "t" "[Menu]\n- a\n[If] 1==1\n: in\n/\n/\n/\n[Menu]" = .ok
      ⟨"t", [.menu ⟨[⟨"a", 2⟩], some 5⟩, .option "a" 0, .conditional ⟨"1==1", [], none, some 4⟩,
        .say ⟨"", "", "in"⟩, .close, .close, .close, .menu ⟨[], none⟩], [], [],
        [⟨"t", 7, .nothingToClose⟩, ⟨"t", 8, .neverClosed "[Menu]"⟩]⟩ := by rfl
  exact ⟨_, h, bracketed_of_compile h, rfl⟩

end Fabula.Script
