import Mathlib.Data.List.Find
import Fabula.Proofs.Script.Tables

/-!
# Well nested scripts

The compiler looks for the owner of a marker among the open blocks of the marker's kind and
passes over those of the other kind. A script is well nested when it never has to: each marker
stands directly in the block that it cuts, and every block is closed.
-/

namespace Fabula.Script

/-- A line of this kind cuts the blocks that `opener` opens: options cut menus, branches cut
conditionals. -/
def Line.cuts : Line → Line → Bool
  | .option _, .menu => true
  | .branch _, .conditional _ => true
  | .otherwise, .conditional _ => true
  | _, _ => false

theorem Line.option_cuts_iff {text : String} {l : Line} :
    (Line.option text).cuts l = true ↔ l = .menu := by
  cases l <;> simp [cuts]

theorem Line.branch_cuts_iff {condition : String} {l : Line} :
    (Line.branch condition).cuts l = true ↔ ∃ c, l = .conditional c := by
  cases l <;> simp [cuts]

theorem Line.otherwise_cuts_iff {l : Line} :
    Line.otherwise.cuts l = true ↔ ∃ c, l = .conditional c := by
  cases l <;> simp [cuts]

/-- The opener of the innermost block that is open when line `j` is reached. -/
def innermost? (ls : List Line) (j : Nat) : Option Line :=
  (openBefore ls j).head?.bind fun i => ls[i]?

/-- Every marker stands directly in a block of its kind. -/
structure Fits (ls : List Line) : Prop where
  option_in_menu : ∀ j text, ls[j]? = some (.option text) → innermost? ls j = some .menu
  branch_in_conditional : ∀ j condition, ls[j]? = some (.branch condition) →
    ∃ c, innermost? ls j = some (.conditional c)
  otherwise_in_conditional : ∀ j, ls[j]? = some .otherwise →
    ∃ c, innermost? ls j = some (.conditional c)

structure WellNested (ls : List Line) : Prop extends Fits ls where
  closed : blockStack ls = []

def Line.isConditional : Line → Bool
  | .conditional _ => true
  | _ => false

/-- Whether line `j`, if it is a marker, stands directly in a block of its kind. -/
def fitsAt (ls : List Line) (j : Nat) : Bool :=
  match ls[j]? with
  | some (.option _) => innermost? ls j == some .menu
  | some (.branch _) => (innermost? ls j).any Line.isConditional
  | some .otherwise => (innermost? ls j).any Line.isConditional
  | _ => true

theorem any_isConditional {o : Option Line} :
    o.any Line.isConditional = true ↔ ∃ c, o = some (.conditional c) := by
  rcases o with _ | l
  · simp
  · cases l <;> simp [Line.isConditional]

theorem fits_iff {ls : List Line} : Fits ls ↔ ∀ j < ls.length, fitsAt ls j = true := by
  constructor
  · intro h j _
    unfold fitsAt
    split
    · rename_i text hj
      simpa using h.option_in_menu j text hj
    · rename_i c hj
      exact any_isConditional.mpr (h.branch_in_conditional j c hj)
    · rename_i hj
      exact any_isConditional.mpr (h.otherwise_in_conditional j hj)
    · rfl
  · intro h
    have hall : ∀ j l, ls[j]? = some l → fitsAt ls j = true :=
      fun j l hj => h j (List.getElem?_eq_some_iff.mp hj).1
    constructor
    · intro j text hj
      have := hall j _ hj
      simpa [fitsAt, hj] using this
    · intro j c hj
      have := hall j _ hj
      rw [fitsAt, hj] at this
      exact any_isConditional.mp this
    · intro j hj
      have := hall j _ hj
      rw [fitsAt, hj] at this
      exact any_isConditional.mp this

instance (ls : List Line) : Decidable (Fits ls) := decidable_of_iff _ fits_iff.symm

instance (ls : List Line) : Decidable (WellNested ls) :=
  decidable_of_iff (Fits ls ∧ blockStack ls = [])
    ⟨fun h => ⟨h.1, h.2⟩, fun h => ⟨h.toFits, h.closed⟩⟩

/-- Every marker stands directly in the block of its owner. -/
def Direct (ss : List Sentence) : Prop :=
  ∀ j s i, ss[j]? = some s → s.owner? = some i → (openBefore (lines ss) j).head? = some i

/-- The owner of a marker is the innermost open block of the marker's kind. -/
def OwnedInside (ss : List Sentence) : Prop :=
  ∀ j s i, ss[j]? = some s → s.owner? = some i →
    (openBefore (lines ss) j).find? (fun k => (lines ss)[k]?.any s.line.cuts) = some i

theorem innermost?_eq_some_iff {ls : List Line} {j : Nat} {l : Line} :
    innermost? ls j = some l ↔ ∃ i, (openBefore ls j).head? = some i ∧ ls[i]? = some l :=
  Option.bind_eq_some_iff

namespace Sentence

theorem owner?_isSome_iff {s : Sentence} :
    (∃ i, s.owner? = some i) ↔
      (∃ text, s.line = .option text) ∨ (∃ c, s.line = .branch c) ∨ s.line = .otherwise := by
  cases s <;> simp [owner?, line]

theorem isOpenMenu_eq (text : String) (s : Sentence) :
    s.isOpenMenu = (s.isOpen && (Line.option text).cuts s.line) := by
  cases s <;> simp [isOpen, isOpenMenu, isOpenConditional, Line.cuts, line]

theorem isOpenConditional_eq (c : String) (s : Sentence) :
    s.isOpenConditional = (s.isOpen && (Line.branch c).cuts s.line) := by
  cases s <;> simp [isOpen, isOpenMenu, isOpenConditional, Line.cuts, line]

theorem isOpenConditional_eq_otherwise (s : Sentence) :
    s.isOpenConditional = (s.isOpen && Line.otherwise.cuts s.line) := by
  cases s <;> simp [isOpen, isOpenMenu, isOpenConditional, Line.cuts, line]

end Sentence

/-- Searching backward for an open block of a kind finds the innermost one on the stack. -/
theorem Matched.find_of_last {ss : List Sentence} {i : Nat} (h : Matched ss) {l : Line}
    {p : Sentence → Bool} (hp : ∀ s, p s = (s.isOpen && l.cuts s.line))
    (hi : lastIndex? p ss = some i) :
    (blockStack (lines ss)).find? (fun k => (lines ss)[k]?.any l.cuts) = some i := by
  obtain ⟨⟨s, hs, hps⟩, hafter⟩ := lastIndex?_eq_some_iff.mp hi
  rw [hp, Bool.and_eq_true] at hps
  have hm : i ∈ blockStack (lines ss) := h.openAt_iff.mp ⟨s, hs, hps.1⟩
  obtain ⟨inner, outer, hstack⟩ := List.append_of_mem hm
  refine List.find?_eq_some_iff_append.mpr ⟨?_, inner, outer, hstack, ?_⟩
  · rw [getElem?_lines, hs]
    exact hps.2
  · intro k hk
    -- what lies above `i` opened later, where the search found none of the kind
    have hki : i < k := by
      have hsorted := (blockStack_sorted (lines ss)).1
      rw [hstack] at hsorted
      exact (List.pairwise_append.mp hsorted).2.2 k hk i List.mem_cons_self
    obtain ⟨t, ht, hto⟩ := h.openAt_iff.mpr (show k ∈ blockStack (lines ss) by simp [hstack, hk])
    have hpt := hafter k t hki ht
    rw [hp, hto, Bool.true_and] at hpt
    rw [getElem?_lines, ht]
    simp [hpt]

namespace OwnedInside
variable {ss ss' : List Sentence} {s : Sentence}

theorem extend (h : OwnedInside ss) (hlines : lines ss' = lines ss)
    (hold : ∀ (j : Nat) (t : Sentence), ss'[j]? = some t →
      ∃ u : Sentence, ss[j]? = some u ∧ t.owner? = u.owner? ∧ t.line = u.line)
    (hnew : ∀ i, s.owner? = some i →
      (blockStack (lines ss)).find? (fun k => (lines ss)[k]?.any s.line.cuts) = some i) :
    OwnedInside (ss' ++ [s]) := by
  have hlen : ss'.length = ss.length := by
    rw [← length_lines, hlines, length_lines]
  have hshort : ∀ j ≤ (lines ss).length, ∀ l : Line,
      (openBefore (lines (ss' ++ [s])) j).find? (fun k => (lines (ss' ++ [s]))[k]?.any l.cuts) =
        (openBefore (lines ss) j).find? (fun k => (lines ss)[k]?.any l.cuts) := by
    intro j hj l
    rw [lines_append, hlines, openBefore_append _ hj]
    refine List.find?_congr fun k hk => ?_
    have hkj := (lt_and_opensAt_of_mem hk).1
    rw [List.getElem?_append_left (by omega)]
  intro j t i hj ho
  rcases getElem?_concat_eq_some.mp hj with hj | ⟨rfl, rfl⟩
  · obtain ⟨u, hu, howner, hline⟩ := hold j t hj
    have hju := (List.getElem?_eq_some_iff.mp hu).1
    rw [hshort j (by rw [length_lines]; omega), hline]
    exact h j u i hu (howner ▸ ho)
  · rw [hshort _ (by rw [length_lines, hlen]), hlen, ← length_lines ss, openBefore_length]
    exact hnew i ho

theorem append (h : OwnedInside ss) (hs : s.owner? = none) : OwnedInside (ss ++ [s]) :=
  h.extend rfl (fun _ t hj => ⟨t, hj, rfl, rfl⟩) (by simp [hs])

theorem attach (h : OwnedInside ss) {f : Sentence → Sentence} {i : Nat}
    (hfo : ∀ s, (f s).owner? = s.owner?) (hfl : ∀ s, (f s).line = s.line)
    (hnew : ∀ i, s.owner? = some i →
      (blockStack (lines ss)).find? (fun k => (lines ss)[k]?.any s.line.cuts) = some i) :
    OwnedInside (ss.modify i f ++ [s]) := by
  refine h.extend (lines_modify hfl ss i) (fun j t hj => ?_) hnew
  obtain ⟨u, hu, rfl⟩ := getElem?_modify_eq_some.mp hj
  refine ⟨u, hu, ?_⟩
  split <;> simp [hfo, hfl]

theorem grows (h : OwnedInside ss) (hm : Matched ss) {ts : List Sentence} (hg : Grows ss ts) :
    OwnedInside ts := by
  cases hg with
  | say l => exact h.append rfl
  | jump label => exact h.append rfl
  | menu => exact h.append rfl
  | conditional c => exact h.append rfl
  | stray _ => exact h.append rfl
  | close _ =>
    exact h.attach (Sentence.owner?_closeAt _) (Sentence.line_closeAt _) (by simp [Sentence.owner?])
  | option text hi =>
    refine h.attach (Sentence.owner?_addOption _ _) (Sentence.line_addOption _ _) fun k hk => ?_
    obtain rfl := Option.some.inj hk
    exact hm.find_of_last (Sentence.isOpenMenu_eq text) hi
  | branch c hi _ =>
    refine h.attach (Sentence.owner?_addBranch _ _) (Sentence.line_addBranch _ _) fun k hk => ?_
    obtain rfl := Option.some.inj hk
    exact hm.find_of_last (Sentence.isOpenConditional_eq c) hi
  | otherwise hi _ =>
    refine h.attach (Sentence.owner?_setOtherwise _) (Sentence.line_setOtherwise _) fun k hk => ?_
    obtain rfl := Option.some.inj hk
    exact hm.find_of_last Sentence.isOpenConditional_eq_otherwise hi

end OwnedInside

theorem Grown.ownedInside {ss : List Sentence} (h : Grown ss) : OwnedInside ss :=
  h.induction (P := OwnedInside) (by intro j s i hj; simp at hj)
    fun hs ho hg => ho.grows hs.matched hg

theorem Grown.direct_iff_fits {ss : List Sentence} (h : Grown ss) :
    Direct ss ↔ Fits (lines ss) := by
  have hcut : ∀ (j : Nat) (s : Sentence) (i : Nat), ss[j]? = some s → s.owner? = some i →
      ∃ opener, (lines ss)[i]? = some opener ∧ s.line.cuts opener = true := by
    intro j s i hj ho
    have hany := List.find?_some (h.ownedInside j s i hj ho)
    exact (Option.any_eq_true _ _).mp hany
  constructor
  · intro hd
    have hin : ∀ (j : Nat) (l : Line), (lines ss)[j]? = some l →
        ((∃ text, l = .option text) ∨ (∃ c, l = .branch c) ∨ l = .otherwise) →
        ∃ opener, innermost? (lines ss) j = some opener ∧ l.cuts opener = true := by
      intro j l hj hl
      rw [getElem?_lines] at hj
      obtain ⟨s, hs, rfl⟩ := Option.map_eq_some_iff.mp hj
      obtain ⟨i, ho⟩ := Sentence.owner?_isSome_iff.mpr hl
      obtain ⟨opener, hopener, hc⟩ := hcut j s i hs ho
      exact ⟨opener, innermost?_eq_some_iff.mpr ⟨i, hd j s i hs ho, hopener⟩, hc⟩
    constructor
    · intro j text hj
      obtain ⟨opener, hi, hc⟩ := hin j _ hj (.inl ⟨text, rfl⟩)
      rw [hi, Line.option_cuts_iff.mp hc]
    · intro j c hj
      obtain ⟨opener, hi, hc⟩ := hin j _ hj (.inr (.inl ⟨c, rfl⟩))
      obtain ⟨d, rfl⟩ := Line.branch_cuts_iff.mp hc
      exact ⟨d, hi⟩
    · intro j hj
      obtain ⟨opener, hi, hc⟩ := hin j _ hj (.inr (.inr rfl))
      obtain ⟨d, rfl⟩ := Line.otherwise_cuts_iff.mp hc
      exact ⟨d, hi⟩
  · intro hf j s i hj ho
    have hl : (lines ss)[j]? = some s.line := by rw [getElem?_lines, hj]; rfl
    obtain ⟨opener, hin, hc⟩ :
        ∃ opener, innermost? (lines ss) j = some opener ∧ s.line.cuts opener = true := by
      rcases Sentence.owner?_isSome_iff.mp ⟨i, ho⟩ with ⟨text, ht⟩ | ⟨c, ht⟩ | ht
      · exact ⟨_, hf.option_in_menu j text (ht ▸ hl), by rw [ht]; rfl⟩
      · obtain ⟨d, hd⟩ := hf.branch_in_conditional j c (ht ▸ hl)
        exact ⟨_, hd, by rw [ht]; rfl⟩
      · obtain ⟨d, hd⟩ := hf.otherwise_in_conditional j (ht ▸ hl)
        exact ⟨_, hd, by rw [ht]; rfl⟩
    obtain ⟨k, hk, hopener⟩ := innermost?_eq_some_iff.mp hin
    have hfind := h.ownedInside j s i hj ho
    rw [openBefore_of_head hk, List.find?_cons_of_pos (by simp [hopener, hc])] at hfind
    rw [hk, hfind]

section Around
variable {ss : List Sentence} {own j e : Nat}

/-- If a marker of the block at `own` stands right before `t`, it stands directly in the block. -/
def DirectAt (ss : List Sentence) (own t : Nat) : Prop :=
  ∀ j s, t = j + 1 → ss[j]? = some s → s.owner? = some own →
    (openBefore (lines ss) j).head? = some own

theorem Direct.at (h : Direct ss) (own t : Nat) : DirectAt ss own t :=
  fun j s _ hs ho => h j s own hs ho

theorem openBefore_opener {s : Sentence} (hs : ss[j]? = some s) (ho : s.line.isOpener = true) :
    openBefore (lines ss) (j + 1) = j :: openBefore (lines ss) j := by
  rw [openBefore_succ (l := s.line) (by rw [getElem?_lines, hs]; rfl), Line.nest_opener ho]

theorem openBefore_plain {s : Sentence} (hs : ss[j]? = some s) (ho : s.line.isOpener = false)
    (hc : s.line ≠ .close) : openBefore (lines ss) (j + 1) = openBefore (lines ss) j := by
  rw [openBefore_succ (l := s.line) (by rw [getElem?_lines, hs]; rfl), Line.nest_plain ho hc]

theorem openBefore_close (hs : ss[j]? = some .close) :
    openBefore (lines ss) (j + 1) = (openBefore (lines ss) j).tail := by
  rw [openBefore_succ (l := .close) (by rw [getElem?_lines, hs]; rfl)]
  rfl

theorem marker_plain {s : Sentence} (h : s.owner? = some own) :
    s.line.isOpener = false ∧ s.line ≠ .close := by
  cases s <;> simp_all [Sentence.owner?, Sentence.line, Line.isOpener]

theorem openBefore_exit (hm : Matched ss) (he : exitAt ss own = some e) :
    openBefore (lines ss) e = own :: openBefore (lines ss) own :=
  openBefore_of_head ((hm own e).mp he).2

theorem openBefore_body {s : Sentence} (hs : ss[j]? = some s) (ho : s.owner? = some own)
    (hhead : (openBefore (lines ss) j).head? = some own) :
    openBefore (lines ss) (j + 1) = own :: openBefore (lines ss) own := by
  obtain ⟨hopener, hclose⟩ := marker_plain ho
  rw [openBefore_plain hs hopener hclose, openBefore_of_head hhead]

end Around

end Fabula.Script
