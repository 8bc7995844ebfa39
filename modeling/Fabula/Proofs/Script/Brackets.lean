import Mathlib.Data.List.Induction
import Fabula.Proofs.Script.Growth

/-!
# Blocks as brackets

Read as brackets, the openers of blocks push their index and a closer pops. `openBefore ls j` is
the stack when line `j` is reached: the blocks that enclose it, the innermost first. A closer
`Closes` what lies on top. Nothing here looks at the links of a compiled script.
-/

namespace Fabula.Script

/-- The open blocks after a line at an index. -/
def Line.nest (l : Line) (index : Nat) (opened : List Nat) : List Nat :=
  match l with
  | .menu => index :: opened
  | .conditional _ => index :: opened
  | .close => opened.tail
  | _ => opened

/-- The blocks open at the end, the innermost first. -/
def blockStack (ls : List Line) : List Nat :=
  ls.zipIdx.foldl (fun opened entry => entry.1.nest entry.2 opened) []

def openBefore (ls : List Line) (j : Nat) : List Nat := blockStack (ls.take j)

/-- The closer at `e` pops the opener at `i`. -/
def Closes (ls : List Line) (i e : Nat) : Prop :=
  ls[e]? = some .close ∧ (openBefore ls e).head? = some i

def OpensAt (ls : List Line) (i : Nat) : Prop := ∃ l, ls[i]? = some l ∧ l.isOpener = true

@[simp] theorem blockStack_nil : blockStack [] = [] := rfl

theorem blockStack_concat (ls : List Line) (l : Line) :
    blockStack (ls ++ [l]) = l.nest ls.length (blockStack ls) := by
  simp [blockStack, List.zipIdx_append]

@[simp] theorem openBefore_zero (ls : List Line) : openBefore ls 0 = [] := rfl

theorem openBefore_length (ls : List Line) : openBefore ls ls.length = blockStack ls := by
  rw [openBefore, List.take_length]

theorem openBefore_append {ls : List Line} {j : Nat} (ks : List Line) (h : j ≤ ls.length) :
    openBefore (ls ++ ks) j = openBefore ls j := by
  rw [openBefore, openBefore, List.take_append_of_le_length h]

theorem openBefore_succ {ls : List Line} {j : Nat} {l : Line} (h : ls[j]? = some l) :
    openBefore ls (j + 1) = l.nest j (openBefore ls j) := by
  obtain ⟨hj, rfl⟩ := List.getElem?_eq_some_iff.mp h
  have htake : ls.take (j + 1) = ls.take j ++ [ls[j]] := (List.take_append_getElem hj).symm
  rw [openBefore, htake, blockStack_concat, List.length_take_of_le (Nat.le_of_lt hj)]
  rfl

theorem Line.nest_opener {l : Line} (h : l.isOpener = true) (j : Nat) (opened : List Nat) :
    l.nest j opened = j :: opened := by
  cases l <;> simp_all [Line.isOpener, Line.nest]

theorem Line.nest_plain {l : Line} (hopen : l.isOpener = false) (hclose : l ≠ .close) (j : Nat)
    (opened : List Nat) : l.nest j opened = opened := by
  cases l <;> simp_all [Line.isOpener, Line.nest]

section Stack
variable {ls : List Line} {i j e : Nat}

theorem blockStack_sorted (ls : List Line) : (blockStack ls).Pairwise (· > ·) ∧
    ∀ i ∈ blockStack ls, OpensAt ls i := by
  induction ls using List.reverseRecOn with
  | nil => simp
  | append_singleton ls l ih =>
    obtain ⟨hsorted, hopens⟩ := ih
    have hkeep : ∀ i, OpensAt ls i → OpensAt (ls ++ [l]) i := by
      rintro i ⟨k, hk, ho⟩
      exact ⟨k, getElem?_append_of_eq_some hk, ho⟩
    rw [blockStack_concat]
    cases hl : l.isOpener with
    | true =>
      rw [Line.nest_opener hl]
      constructor
      · refine List.pairwise_cons.mpr ⟨?_, hsorted⟩
        intro i hi
        obtain ⟨k, hk, _⟩ := hopens i hi
        exact (List.getElem?_eq_some_iff.mp hk).1
      · intro i hi
        rcases List.mem_cons.mp hi with rfl | hi
        · exact ⟨l, by simp, hl⟩
        · exact hkeep i (hopens i hi)
    | false =>
      by_cases hc : l = .close
      · subst hc
        exact ⟨hsorted.tail, fun i hi => hkeep i (hopens i (List.mem_of_mem_tail hi))⟩
      · rw [Line.nest_plain hl hc]
        exact ⟨hsorted, fun i hi => hkeep i (hopens i hi)⟩

theorem openBefore_sorted (ls : List Line) (j : Nat) : (openBefore ls j).Pairwise (· > ·) :=
  (blockStack_sorted _).1

theorem lt_and_opensAt_of_mem (h : i ∈ openBefore ls j) : i < j ∧ OpensAt ls i := by
  obtain ⟨l, hl, ho⟩ := (blockStack_sorted _).2 i h
  rw [List.getElem?_take] at hl
  split at hl
  · exact ⟨by assumption, l, hl, ho⟩
  · simp at hl

theorem openBefore_succ_of_length_le (h : ls.length ≤ j) :
    openBefore ls (j + 1) = openBefore ls j := by
  rw [openBefore, openBefore, List.take_of_length_le h, List.take_of_length_le (by omega)]

theorem mem_openBefore_of_succ (h : i ∈ openBefore ls (j + 1)) (hij : i ≠ j) :
    i ∈ openBefore ls j := by
  cases hl : ls[j]? with
  | none => rwa [openBefore_succ_of_length_le (List.getElem?_eq_none_iff.mp hl)] at h
  | some l =>
    rw [openBefore_succ hl] at h
    cases l <;> simp only [Line.nest] at h
    case menu => exact (List.mem_cons.mp h).resolve_left hij
    case conditional => exact (List.mem_cons.mp h).resolve_left hij
    case close => exact List.mem_of_mem_tail h
    all_goals exact h

theorem mem_openBefore_succ (h : i ∈ openBefore ls j) :
    i ∈ openBefore ls (j + 1) ∨ Closes ls i j := by
  cases hl : ls[j]? with
  | none => exact .inl (by rwa [openBefore_succ_of_length_le (List.getElem?_eq_none_iff.mp hl)])
  | some l =>
    rw [openBefore_succ hl]
    cases l <;> simp only [Line.nest]
    case menu => exact .inl (List.mem_cons_of_mem _ h)
    case conditional => exact .inl (List.mem_cons_of_mem _ h)
    case close =>
      cases hs : openBefore ls j with
      | nil => simp [hs] at h
      | cons k rest =>
        rw [hs] at h
        rcases List.mem_cons.mp h with rfl | h
        · exact .inr ⟨hl, by rw [hs]; rfl⟩
        · exact .inl h
    all_goals exact .inl h

theorem Closes.mem (h : Closes ls i e) : i ∈ openBefore ls e := List.mem_of_mem_head? h.2

theorem Closes.lt (h : Closes ls i e) : i < e := (lt_and_opensAt_of_mem h.mem).1

theorem Closes.opensAt (h : Closes ls i e) : OpensAt ls i := (lt_and_opensAt_of_mem h.mem).2

/-- The stack when a block's line is reached lies unchanged below the block while it is open. -/
theorem openBefore_of_mem (h : i ∈ openBefore ls j) :
    ∃ inner, openBefore ls j = inner ++ i :: openBefore ls i := by
  induction j with
  | zero => simp at h
  | succ j ih =>
    have hj := (lt_and_opensAt_of_mem h).1
    obtain ⟨l, hl, ho⟩ := (lt_and_opensAt_of_mem h).2
    by_cases hij : i = j
    · subst hij
      exact ⟨[], by rw [openBefore_succ hl, Line.nest_opener ho]; rfl⟩
    · obtain ⟨inner, hin⟩ := ih (mem_openBefore_of_succ h hij)
      cases hk : ls[j]? with
      | none =>
        exact ⟨inner, by rw [openBefore_succ_of_length_le (List.getElem?_eq_none_iff.mp hk), hin]⟩
      | some k =>
        have hsucc := openBefore_succ hk
        rw [hin] at hsucc
        cases k <;> simp only [Line.nest] at hsucc
        case menu => exact ⟨j :: inner, hsucc⟩
        case conditional => exact ⟨j :: inner, hsucc⟩
        case close =>
          cases inner with
          | nil =>
            -- the closer would have popped `i` itself
            rw [hsucc] at h
            have := (lt_and_opensAt_of_mem (show i ∈ openBefore ls i from h)).1
            omega
          | cons _ inner => exact ⟨inner, hsucc⟩
        all_goals exact ⟨inner, hsucc⟩

theorem le_of_mem_of_head (h : (openBefore ls j).head? = some i) {k : Nat}
    (hk : k ∈ openBefore ls j) : k ≤ i := by
  have hsorted := openBefore_sorted ls j
  cases hs : openBefore ls j with
  | nil => simp [hs] at h
  | cons a rest =>
    rw [hs] at h hk hsorted
    obtain rfl := Option.some.inj h
    rcases List.mem_cons.mp hk with rfl | hk
    · exact Nat.le_refl _
    · exact Nat.le_of_lt ((List.pairwise_cons.mp hsorted).1 k hk)

theorem openBefore_of_head (h : (openBefore ls j).head? = some i) :
    openBefore ls j = i :: openBefore ls i := by
  obtain ⟨inner, hin⟩ := openBefore_of_mem (List.mem_of_mem_head? h)
  cases inner with
  | nil => exact hin
  | cons a inner =>
    have hsorted := openBefore_sorted ls j
    rw [hin] at h hsorted
    obtain rfl := Option.some.inj h
    have := (List.pairwise_cons.mp hsorted).1 a (by simp)
    omega

theorem Closes.not_mem (h : Closes ls i e) (hj : e < j) : i ∉ openBefore ls j := by
  induction j with
  | zero => omega
  | succ j ih =>
    intro hm
    have hlt := h.lt
    have hm' := mem_openBefore_of_succ hm (by omega)
    by_cases hej : e = j
    · subst hej
      rw [openBefore_succ h.1, openBefore_of_head h.2] at hm
      have := (lt_and_opensAt_of_mem (show i ∈ openBefore ls i from hm)).1
      omega
    · exact ih (by omega) hm'

theorem mem_openBefore_of_not_closed (ho : OpensAt ls i) (hij : i < j)
    (h : ∀ e, Closes ls i e → j ≤ e) : i ∈ openBefore ls j := by
  induction j with
  | zero => omega
  | succ j ih =>
    by_cases heq : i = j
    · subst heq
      obtain ⟨l, hl, ho⟩ := ho
      rw [openBefore_succ hl, Line.nest_opener ho]
      exact List.mem_cons_self
    · have hm := ih (by omega) fun e he => Nat.le_of_succ_le (h e he)
      rcases mem_openBefore_succ hm with hm | hc
      · exact hm
      · have := h j hc
        omega

/-- The blocks around a line are those that opened before it and do not close before it. -/
theorem mem_openBefore_iff :
    i ∈ openBefore ls j ↔ OpensAt ls i ∧ i < j ∧ ∀ e, Closes ls i e → j ≤ e := by
  constructor
  · intro h
    obtain ⟨hij, ho⟩ := lt_and_opensAt_of_mem h
    refine ⟨ho, hij, fun e he => ?_⟩
    by_contra hlt
    exact he.not_mem (by omega) h
  · rintro ⟨ho, hij, h⟩
    exact mem_openBefore_of_not_closed ho hij h

theorem Closes.unique {f : Nat} (he : Closes ls i e) (hf : Closes ls i f) : e = f := by
  have h1 : ¬ e < f := fun h => he.not_mem h hf.mem
  have h2 : ¬ f < e := fun h => hf.not_mem h he.mem
  omega

theorem Closes.opener_unique {k : Nat} (hi : Closes ls i e) (hk : Closes ls k e) : i = k :=
  Option.some.inj (hi.2.symm.trans hk.2)

/-- A block that opens inside another closes inside it. -/
theorem Closes.closes_inside (h : Closes ls i e) (hij : i < j) (hje : j < e)
    (hj : OpensAt ls j) : ∃ f, Closes ls j f ∧ f < e := by
  by_contra hno
  have hm : j ∈ openBefore ls e := by
    refine mem_openBefore_of_not_closed hj hje fun f hf => ?_
    by_contra hlt
    exact hno ⟨f, hf, by omega⟩
  have := le_of_mem_of_head h.2 hm
  omega

theorem Closes.nested_or_disjoint {f : Nat} (hi : Closes ls i e) (hj : Closes ls j f)
    (hij : i < j) : e < j ∨ f < e := by
  have hne : e ≠ j := by
    rintro rfl
    obtain ⟨l, hl, ho⟩ := hj.opensAt
    rw [hi.1] at hl
    obtain rfl := Option.some.inj hl
    simp [Line.isOpener] at ho
  by_cases hje : j < e
  · obtain ⟨g, hg, hge⟩ := hi.closes_inside hij hje hj.opensAt
    exact .inr (hg.unique hj ▸ hge)
  · exact .inl (by omega)

end Stack

end Fabula.Script
