import Fabula.Proofs.Script.Matching

/-!
# The tables of menus and conditionals

An opener keeps a table of its options or branches, and each of them has a marker in the script
that names the opener. `marks` reads the table off the markers; a line that adds a marker adds
the same entry at the end of both. A last branch ends the table, so it is one and it comes after
the others.
-/

namespace Fabula.Script

namespace Sentence

/-- The opener that a marker belongs to. -/
def owner? : Sentence → Option Nat
  | option _ own => some own
  | branch _ own => some own
  | otherwise own => some own
  | _ => none

/-- The table of an opener: each marker as a line, and the first sentence after it. -/
def table : Sentence → List (Line × Nat)
  | menu m => m.options.map fun o => (.option o.text, o.target)
  | conditional c => (c.branches.map fun b => (.branch b.condition, b.target)) ++
      c.otherwise.toList.map fun target => (.otherwise, target)
  | _ => []

@[simp] theorem owner?_closeAt (exit : Nat) (s : Sentence) : (s.closeAt exit).owner? = s.owner? := by
  cases s <;> rfl

@[simp] theorem owner?_addOption (text : String) (target : Nat) (s : Sentence) :
    (s.addOption text target).owner? = s.owner? := by
  cases s <;> rfl

@[simp] theorem owner?_addBranch (condition : String) (target : Nat) (s : Sentence) :
    (s.addBranch condition target).owner? = s.owner? := by
  cases s <;> rfl

@[simp] theorem owner?_setOtherwise (target : Nat) (s : Sentence) :
    (s.setOtherwise target).owner? = s.owner? := by
  cases s <;> rfl

@[simp] theorem table_closeAt (exit : Nat) (s : Sentence) : (s.closeAt exit).table = s.table := by
  cases s <;> rfl

theorem table_addOption {s : Sentence} (h : s.isOpenMenu = true) (text : String) (target : Nat) :
    (s.addOption text target).table = s.table ++ [(.option text, target)] := by
  cases s <;> simp_all [isOpenMenu, addOption, table]

theorem table_addBranch {s : Sentence} (h : s.isOpenConditional = true)
    (hm : s.hasOtherwise = false) (condition : String) (target : Nat) :
    (s.addBranch condition target).table = s.table ++ [(.branch condition, target)] := by
  cases s <;> simp_all [isOpenConditional, hasOtherwise, addBranch, table]

theorem table_setOtherwise {s : Sentence} (h : s.isOpenConditional = true)
    (hm : s.hasOtherwise = false) (target : Nat) :
    (s.setOtherwise target).table = s.table ++ [(.otherwise, target)] := by
  cases s <;> simp_all [isOpenConditional, hasOtherwise, setOtherwise, table]

end Sentence

/-- The entry that the sentence at an index makes in the table of the opener at `own`. -/
def entryOf? (own : Nat) (entry : Sentence × Nat) : Option (Line × Nat) :=
  if entry.1.owner? = some own then some (entry.1.line, entry.2 + 1) else none

/-- The markers of the opener at `own`, in the order of the script. -/
def marks (ss : List Sentence) (own : Nat) : List (Line × Nat) :=
  ss.zipIdx.filterMap (entryOf? own)

theorem marks_concat (ss : List Sentence) (s : Sentence) (own : Nat) :
    marks (ss ++ [s]) own = marks ss own ++ (entryOf? own (s, ss.length)).toList := by
  simp only [marks, List.zipIdx_append, List.filterMap_append, Nat.zero_add, List.zipIdx_singleton,
    List.filterMap_cons, List.filterMap_nil]
  cases entryOf? own (s, ss.length) <;> rfl

theorem marks_concat_of_ne {s : Sentence} {own : Nat} (h : s.owner? ≠ some own)
    (ss : List Sentence) : marks (ss ++ [s]) own = marks ss own := by
  rw [marks_concat, entryOf?, if_neg h]
  exact List.append_nil _

theorem marks_modify {f : Sentence → Sentence} (ho : ∀ s, (f s).owner? = s.owner?)
    (hl : ∀ s, (f s).line = s.line) (ss : List Sentence) (i own : Nat) :
    marks (ss.modify i f) own = marks ss own :=
  filterMap_zipIdx_modify (fun s j => by simp only [entryOf?, ho, hl]) i 0

theorem mem_marks {ss : List Sentence} {own target : Nat} {l : Line} :
    (l, target) ∈ marks ss own ↔
      ∃ j s, ss[j]? = some s ∧ s.owner? = some own ∧ s.line = l ∧ target = j + 1 := by
  simp only [marks, List.mem_filterMap, entryOf?]
  constructor
  · rintro ⟨⟨s, j⟩, hm, he⟩
    split at he
    · rename_i ho
      obtain ⟨rfl, rfl⟩ := Prod.mk.inj (Option.some.inj he)
      exact ⟨j, s, List.mk_mem_zipIdx_iff_getElem?.mp hm, ho, rfl, rfl⟩
    · simp at he
  · rintro ⟨j, s, hs, ho, rfl, rfl⟩
    exact ⟨(s, j), List.mk_mem_zipIdx_iff_getElem?.mpr hs, by simp [ho]⟩

theorem marks_increasing (ss : List Sentence) (own : Nat) :
    (marks ss own).Pairwise fun a b => a.2 < b.2 := by
  induction ss using List.reverseRecOn with
  | nil => simp [marks]
  | append_singleton ss s ih =>
    rw [marks_concat]
    refine List.pairwise_append.mpr ⟨ih, ?_, ?_⟩
    · cases entryOf? own (s, ss.length) <;> simp
    · rintro ⟨l, target⟩ hm ⟨k, next⟩ hn
      obtain ⟨j, t, ht, _, _, rfl⟩ := mem_marks.mp hm
      have hj := (List.getElem?_eq_some_iff.mp ht).1
      unfold entryOf? at hn
      split at hn
      · obtain rfl : next = ss.length + 1 := by simp_all
        simpa using hj
      · simp at hn

/-- Every table is read off the markers, and a marker stands inside the block of its owner. -/
structure Attached (ss : List Sentence) : Prop where
  table : ∀ i s, ss[i]? = some s → s.line.isOpener = true → s.table = marks ss i
  owned : ∀ j s i, ss[j]? = some s → s.owner? = some i →
    i < j ∧ OpensAt (lines ss) i ∧ ∀ e, exitAt ss i = some e → j < e

namespace Attached
variable {ss : List Sentence} {i : Nat}

theorem marks_length (h : Attached ss) : marks ss ss.length = [] := by
  apply List.eq_nil_iff_forall_not_mem.mpr
  rintro ⟨l, target⟩ hm
  obtain ⟨j, s, hs, ho, _⟩ := mem_marks.mp hm
  have := (h.owned j s _ hs ho).1
  have := (List.getElem?_eq_some_iff.mp hs).1
  omega

/-- A sentence at the end that is no marker and whose table, if it has one, is empty. -/
theorem append (h : Attached ss) {s : Sentence} (ho : s.owner? = none) (ht : s.table = [])
    (he : s.exit? = none) : Attached (ss ++ [s]) := by
  constructor
  · intro k t hk hline
    rw [marks_concat_of_ne (by simp [ho])]
    rcases getElem?_concat_eq_some.mp hk with hk | ⟨rfl, rfl⟩
    · exact h.table k t hk hline
    · rw [ht, h.marks_length]
  · intro j t k hj hown
    rcases getElem?_concat_eq_some.mp hj with hj | ⟨rfl, rfl⟩
    · obtain ⟨hkj, ⟨l, hl, hopen⟩, hexit⟩ := h.owned j t k hj hown
      rw [lines_append, exitAt_append_singleton he]
      exact ⟨hkj, ⟨l, getElem?_append_of_eq_some hl, hopen⟩, hexit⟩
    · simp [ho] at hown

theorem close (h : Attached ss) (hi : lastIndex? Sentence.isOpen ss = some i) :
    Attached (ss.modify i (Sentence.closeAt ss.length)) := by
  obtain ⟨⟨s, hs, hopen⟩, _⟩ := lastIndex?_eq_some_iff.mp hi
  constructor
  · intro k t hk hline
    obtain ⟨u, hu, rfl⟩ := getElem?_modify_eq_some.mp hk
    rw [marks_modify (Sentence.owner?_closeAt _) (Sentence.line_closeAt _)]
    split at hline
    · rw [if_pos (by assumption), Sentence.table_closeAt]
      exact h.table k u hu (by simpa using hline)
    · rw [if_neg (by assumption)]
      exact h.table k u hu hline
  · intro j t k hj hown
    obtain ⟨u, hu, rfl⟩ := getElem?_modify_eq_some.mp hj
    have hown' : u.owner? = some k := by
      split at hown <;> simpa using hown
    obtain ⟨hkj, hopens, hexit⟩ := h.owned j u k hu hown'
    rw [lines_modify (Sentence.line_closeAt _), exitAt_modify_closeAt hs hopen]
    refine ⟨hkj, hopens, fun e he => ?_⟩
    split at he
    · obtain rfl := Option.some.inj he
      exact (List.getElem?_eq_some_iff.mp hu).1
    · exact hexit e he

/-- A marker at the end whose owner, still open, has taken it into its table. -/
theorem attach (h : Attached ss) {f : Sentence → Sentence} {s marker : Sentence}
    (hi : ss[i]? = some s) (hopen : s.isOpen = true) (hown : marker.owner? = some i)
    (hplain : marker.line.isOpener = false) (hexit : marker.exit? = none)
    (hf : (f s).table = s.table ++ [(marker.line, ss.length + 1)])
    (hfo : ∀ s, (f s).owner? = s.owner?) (hfl : ∀ s, (f s).line = s.line)
    (hfe : ∀ s, (f s).exit? = s.exit?) : Attached (ss.modify i f ++ [marker]) := by
  have hlen : (ss.modify i f).length = ss.length := List.length_modify ..
  obtain ⟨hline, hnone⟩ := (Sentence.isOpen_iff s).mp hopen
  constructor
  · intro k t hk hkl
    rcases getElem?_concat_eq_some.mp hk with hk | ⟨_, rfl⟩
    · obtain ⟨u, hu, rfl⟩ := getElem?_modify_eq_some.mp hk
      by_cases hik : i = k
      · subst hik
        obtain rfl := Option.some.inj (hi.symm.trans hu)
        rw [if_pos rfl, hf, h.table i s hi hline, marks_concat, marks_modify hfo hfl, hlen,
          entryOf?, if_pos hown]
        rfl
      · rw [if_neg hik] at hkl ⊢
        rw [marks_concat_of_ne (by simpa [hown] using hik), marks_modify hfo hfl]
        exact h.table k u hu hkl
    · simp [hplain] at hkl
  · intro j t k hj htown
    rw [lines_append, lines_modify hfl, exitAt_append_singleton hexit, exitAt_modify hfe]
    rcases getElem?_concat_eq_some.mp hj with hj | ⟨rfl, rfl⟩
    · obtain ⟨u, hu, rfl⟩ := getElem?_modify_eq_some.mp hj
      have htown' : u.owner? = some k := by
        split at htown <;> simpa [hfo] using htown
      obtain ⟨hkj, ⟨l, hl, ho⟩, hlate⟩ := h.owned j u k hu htown'
      exact ⟨hkj, ⟨l, getElem?_append_of_eq_some hl, ho⟩, hlate⟩
    · obtain rfl := Option.some.inj (hown.symm.trans htown)
      have hil := (List.getElem?_eq_some_iff.mp hi).1
      refine ⟨by omega, ⟨s.line, ?_, hline⟩, fun e he => by simp [exitAt, hi, hnone] at he⟩
      apply getElem?_append_of_eq_some
      rw [getElem?_lines, hi]
      rfl

theorem grows (h : Attached ss) {ts : List Sentence} (hg : Grows ss ts) : Attached ts := by
  cases hg with
  | say l => exact h.append rfl rfl rfl
  | jump label => exact h.append rfl rfl rfl
  | menu => exact h.append rfl rfl rfl
  | conditional c => exact h.append rfl rfl rfl
  | stray _ => exact h.append rfl rfl rfl
  | close hi => exact (h.close hi).append rfl rfl rfl
  | option text hi =>
    obtain ⟨⟨s, hs, ho⟩, _⟩ := lastIndex?_eq_some_iff.mp hi
    exact h.attach hs (by simp [Sentence.isOpen, ho]) rfl rfl rfl
      (Sentence.table_addOption ho _ _) (Sentence.owner?_addOption _ _)
      (Sentence.line_addOption _ _) (Sentence.exit?_addOption _ _)
  | branch c hi hmore =>
    obtain ⟨⟨s, hs, ho⟩, _⟩ := lastIndex?_eq_some_iff.mp hi
    have hm : s.hasOtherwise = false := by simpa [hasOtherwiseIn, hs] using hmore
    exact h.attach hs (by simp [Sentence.isOpen, ho]) rfl rfl rfl
      (Sentence.table_addBranch ho hm _ _) (Sentence.owner?_addBranch _ _)
      (Sentence.line_addBranch _ _) (Sentence.exit?_addBranch _ _)
  | otherwise hi hmore =>
    obtain ⟨⟨s, hs, ho⟩, _⟩ := lastIndex?_eq_some_iff.mp hi
    have hm : s.hasOtherwise = false := by simpa [hasOtherwiseIn, hs] using hmore
    exact h.attach hs (by simp [Sentence.isOpen, ho]) rfl rfl rfl
      (Sentence.table_setOtherwise ho hm _) (Sentence.owner?_setOtherwise _)
      (Sentence.line_setOtherwise _) (Sentence.exit?_setOtherwise _)

end Attached

theorem Grown.attached {ss : List Sentence} (h : Grown ss) : Attached ss :=
  h.induction ⟨by simp, by simp⟩ fun _ ha hg => ha.grows hg

/-- The options that the markers of a menu announce. -/
def optionsOf (ss : List Sentence) (own : Nat) : List MenuOption :=
  ss.zipIdx.filterMap fun entry =>
    match entry.1 with
    | .option text owner => if owner = own then some ⟨text, entry.2 + 1⟩ else none
    | _ => none

/-- The branches that the markers of a conditional announce. -/
def branchesOf (ss : List Sentence) (own : Nat) : List Branch :=
  ss.zipIdx.filterMap fun entry =>
    match entry.1 with
    | .branch condition owner => if owner = own then some ⟨condition, entry.2 + 1⟩ else none
    | _ => none

/-- The only last branch of the conditional at `own`, after all its other branches. -/
structure LastBranch (ss : List Sentence) (own j : Nat) : Prop where
  marker : ss[j]? = some (.otherwise own)
  only : ∀ k, ss[k]? = some (.otherwise own) → k = j
  after : ∀ k condition, ss[k]? = some (.branch condition own) → k < j

/-- The marker at `j` stands in the block that `opener` describes. -/
structure StandsIn (ss : List Sentence) (own j : Nat) (opener : Sentence → Prop) : Prop where
  opener : ∃ s, ss[own]? = some s ∧ opener s
  after : own < j
  inside : ∀ e, exitAt ss own = some e → j < e

/-- Menus and conditionals know exactly the markers that name them. -/
structure Tabled (ss : List Sentence) : Prop where
  options : ∀ i m, ss[i]? = some (.menu m) → m.options = optionsOf ss i
  branches : ∀ i c, ss[i]? = some (.conditional c) → c.branches = branchesOf ss i
  otherwise : ∀ i c target, ss[i]? = some (.conditional c) →
    (c.otherwise = some target ↔ ∃ j, target = j + 1 ∧ LastBranch ss i j)
  option_stands : ∀ j text i, ss[j]? = some (.option text i) →
    StandsIn ss i j fun s => ∃ m, s = .menu m
  branch_stands : ∀ j condition i, ss[j]? = some (.branch condition i) →
    StandsIn ss i j fun s => ∃ c, s = .conditional c
  otherwise_stands : ∀ j i, ss[j]? = some (.otherwise i) →
    StandsIn ss i j fun s => ∃ c, s = .conditional c

theorem optionsOf_eq (ss : List Sentence) (own : Nat) :
    optionsOf ss own = (marks ss own).filterMap fun mark =>
      match mark.1 with
      | .option text => some ⟨text, mark.2⟩
      | _ => none := by
  rw [optionsOf, marks, List.filterMap_filterMap]
  congr 1
  funext ⟨s, j⟩
  cases s <;> simp only [entryOf?, Sentence.owner?, Sentence.line, reduceCtorEq, if_false,
    Option.bind_none, Option.some.injEq]
  all_goals split <;> rfl

theorem branchesOf_eq (ss : List Sentence) (own : Nat) :
    branchesOf ss own = (marks ss own).filterMap fun mark =>
      match mark.1 with
      | .branch condition => some ⟨condition, mark.2⟩
      | _ => none := by
  rw [branchesOf, marks, List.filterMap_filterMap]
  congr 1
  funext ⟨s, j⟩
  cases s <;> simp only [entryOf?, Sentence.owner?, Sentence.line, reduceCtorEq, if_false,
    Option.bind_none, Option.some.injEq]
  all_goals split <;> rfl

namespace Attached
variable {ss : List Sentence} {i j : Nat}

theorem mem_table (h : Attached ss) {s : Sentence} (hs : ss[i]? = some s)
    (ho : s.line.isOpener = true) {l : Line} {target : Nat} :
    (l, target) ∈ s.table ↔
      ∃ j t, ss[j]? = some t ∧ t.owner? = some i ∧ t.line = l ∧ target = j + 1 := by
  rw [h.table i s hs ho, mem_marks]

theorem owner_table (h : Attached ss) {t : Sentence} (hj : ss[j]? = some t)
    (hown : t.owner? = some i) : ∃ s, ss[i]? = some s ∧ (t.line, j + 1) ∈ s.table := by
  obtain ⟨_, ⟨l, hl, ho⟩, _⟩ := h.owned j t i hj hown
  rw [getElem?_lines] at hl
  obtain ⟨s, hs, rfl⟩ := Option.map_eq_some_iff.mp hl
  exact ⟨s, hs, (h.mem_table hs ho).mpr ⟨j, t, hj, hown, rfl, rfl⟩⟩

theorem standsIn (h : Attached ss) {t : Sentence} {opener : Sentence → Prop}
    (hj : ss[j]? = some t) (hown : t.owner? = some i)
    (hkind : ∀ s, (t.line, j + 1) ∈ s.table → opener s) : StandsIn ss i j opener := by
  obtain ⟨hij, _, hexit⟩ := h.owned j t i hj hown
  obtain ⟨s, hs, hm⟩ := h.owner_table hj hown
  exact ⟨⟨s, hs, hkind s hm⟩, hij, hexit⟩

theorem branches_before (h : Attached ss) {c : Conditional} {target : Nat}
    (hi : ss[i]? = some (.conditional c)) (ho : c.otherwise = some target) {b : Branch}
    (hb : b ∈ c.branches) : b.target < target := by
  have hsorted := marks_increasing ss i
  rw [← h.table i _ hi rfl, Sentence.table, ho] at hsorted
  have hlast := (List.pairwise_append.mp hsorted).2.2
  exact hlast (.branch b.condition, b.target) (List.mem_map.mpr ⟨b, hb, rfl⟩)
    (.otherwise, target) (by simp)

theorem option_marker (h : Attached ss) {m : Menu} (hi : ss[i]? = some (.menu m))
    {o : MenuOption} (ho : o ∈ m.options) :
    ∃ j s, ss[j]? = some s ∧ s.owner? = some i ∧ o.target = j + 1 := by
  have hmem : (Line.option o.text, o.target) ∈ (Sentence.menu m).table :=
    List.mem_map.mpr ⟨o, ho, rfl⟩
  obtain ⟨j, s, hs, hown, _, htarget⟩ := (h.mem_table hi rfl).mp hmem
  exact ⟨j, s, hs, hown, htarget⟩

theorem marker_option (h : Attached ss) {m : Menu} (hi : ss[i]? = some (.menu m)) {s : Sentence}
    (hs : ss[j]? = some s) (hown : s.owner? = some i) : ∃ o ∈ m.options, o.target = j + 1 := by
  have hmem := (h.mem_table hi rfl).mpr ⟨j, s, hs, hown, rfl, rfl⟩
  obtain ⟨o, ho, heq⟩ := List.mem_map.mp hmem
  exact ⟨o, ho, (Prod.mk.inj heq).2⟩

theorem branch_marker (h : Attached ss) {c : Conditional} (hi : ss[i]? = some (.conditional c))
    {b : Branch} (hb : b ∈ c.branches) :
    ∃ j, b.target = j + 1 ∧ ss[j]? = some (.branch b.condition i) := by
  have hmem : (Line.branch b.condition, b.target) ∈ (Sentence.conditional c).table :=
    List.mem_append_left _ (List.mem_map.mpr ⟨b, hb, rfl⟩)
  obtain ⟨j, s, hs, hown, hline, htarget⟩ := (h.mem_table hi rfl).mp hmem
  refine ⟨j, htarget, ?_⟩
  cases s <;> simp_all [Sentence.line, Sentence.owner?]

theorem marker_branch (h : Attached ss) {c : Conditional} (hi : ss[i]? = some (.conditional c))
    {s : Sentence} (hs : ss[j]? = some s) (hown : s.owner? = some i) :
    (∃ b ∈ c.branches, b.target = j + 1) ∨ c.otherwise = some (j + 1) := by
  have hmem := (h.mem_table hi rfl).mpr ⟨j, s, hs, hown, rfl, rfl⟩
  rcases List.mem_append.mp hmem with hmem | hmem
  · obtain ⟨b, hb, heq⟩ := List.mem_map.mp hmem
    exact .inl ⟨b, hb, (Prod.mk.inj heq).2⟩
  · obtain ⟨target, ht, heq⟩ := List.mem_map.mp hmem
    obtain rfl : target = j + 1 := (Prod.mk.inj heq).2
    exact .inr (by simpa using ht)

theorem branches_increasing (h : Attached ss) {c : Conditional}
    (hi : ss[i]? = some (.conditional c)) :
    c.branches.Pairwise fun a b => a.target < b.target := by
  have hsorted := marks_increasing ss i
  rw [← h.table i _ hi rfl, Sentence.table] at hsorted
  have hbranches := (List.pairwise_append.mp hsorted).1
  rw [List.pairwise_map] at hbranches
  exact hbranches

theorem otherwise_iff (h : Attached ss) {c : Conditional} (target : Nat)
    (hi : ss[i]? = some (.conditional c)) :
    c.otherwise = some target ↔ ∃ j, target = j + 1 ∧ LastBranch ss i j := by
  have hentry : ∀ k, ss[k]? = some (.otherwise i) → c.otherwise = some (k + 1) := by
    intro k hk
    have hm := (h.mem_table hi rfl).mpr ⟨k, _, hk, rfl, rfl, rfl⟩
    simpa [Sentence.table, Sentence.line] using hm
  constructor
  · intro ho
    have hm : (Line.otherwise, target) ∈ (Sentence.conditional c).table := by
      simp [Sentence.table, ho]
    obtain ⟨j, t, hj, hown, hline, rfl⟩ := (h.mem_table hi rfl).mp hm
    refine ⟨j, rfl, ?_, ?_, ?_⟩
    · cases t <;> simp_all [Sentence.line, Sentence.owner?]
    · intro k hk
      have := hentry k hk
      simp_all
    · intro k condition hk
      have hm := (h.mem_table hi rfl).mpr ⟨k, _, hk, rfl, rfl, rfl⟩
      obtain ⟨b, hb, heq⟩ : ∃ b ∈ c.branches, b.target = k + 1 := by
        simp only [Sentence.table, Sentence.line, List.mem_append, List.mem_map] at hm
        rcases hm with ⟨b, hb, heq⟩ | ⟨_, _, heq⟩
        · exact ⟨b, hb, (Prod.mk.inj heq).2⟩
        · simp at heq
      have := h.branches_before hi ho hb
      omega
  · rintro ⟨j, rfl, hlast⟩
    exact hentry j hlast.marker

theorem tabled (h : Attached ss) : Tabled ss where
  options i m hi := by
    rw [optionsOf_eq, ← h.table i _ hi rfl, Sentence.table, List.filterMap_map]
    exact List.filterMap_some.symm
  branches i c hi := by
    rw [branchesOf_eq, ← h.table i _ hi rfl, Sentence.table, List.filterMap_append,
      List.filterMap_map]
    have hlast : ((c.otherwise.toList.map fun target => (Line.otherwise, target)).filterMap
        fun mark => match mark.1 with
          | .branch condition => some ⟨condition, mark.2⟩
          | _ => none) = ([] : List Branch) := by
      cases c.otherwise <;> rfl
    rw [hlast, List.append_nil]
    exact List.filterMap_some.symm
  otherwise i c target hi := h.otherwise_iff target hi
  option_stands j text i hj := by
    refine h.standsIn hj rfl fun s hm => ?_
    cases s <;> simp_all [Sentence.table, Sentence.line]
  branch_stands j condition i hj := by
    refine h.standsIn hj rfl fun s hm => ?_
    cases s <;> simp_all [Sentence.table, Sentence.line]
  otherwise_stands j i hj := by
    refine h.standsIn hj rfl fun s hm => ?_
    cases s <;> simp_all [Sentence.table, Sentence.line]

end Attached

theorem tabled_of_compile {source text : String} {script : Script}
    (h : Compiler.standard.compile source text = .ok script) : Tabled script.sentences :=
  (Compiler.grown_of_compile h).attached.tabled

/-- A conditional with two branches and a last one, around a menu with an option. -/
theorem tabled_conditional_around_menu : ∃ script, Compiler.standard.compile "t"
      "[If] a>1\n[Menu]\n- x\n/\n[Elif] b>1\n[Elif] c>1\n[Else]\n/" = .ok script ∧
      Tabled script.sentences ∧ LastBranch script.sentences 0 6 := by
  have h : Compiler.standard.compile "t"
      "[If] a>1\n[Menu]\n- x\n/\n[Elif] b>1\n[Elif] c>1\n[Else]\n/" = .ok
      ⟨"t", [.conditional ⟨"a>1", [⟨"b>1", 5⟩, ⟨"c>1", 6⟩], some 7, some 7⟩,
        .menu ⟨[⟨"x", 3⟩], some 3⟩, .option "x" 1, .close, .branch "b>1" 0, .branch "c>1" 0,
        .otherwise 0, .close], [], [], []⟩ := by rfl
  have ht := tabled_of_compile h
  obtain ⟨j, hj, hlast⟩ := (ht.otherwise 0 _ 7 rfl).mp rfl
  obtain rfl : j = 6 := by omega
  exact ⟨_, h, ht, hlast⟩

end Fabula.Script
