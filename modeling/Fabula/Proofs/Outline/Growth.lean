import Fabula.Proofs.Outline.Basic

/-!
# Outlines grow into their code

The code of a body leaves no block open, so the search for the owner of a marker passes over the
bodies before it and comes to the opener of the block whose part it begins.
-/

namespace Fabula.Script

theorem allClosed_nil : AllClosed [] := by simp [AllClosed]

theorem allClosed_cons {s : Sentence} {ss : List Sentence} :
    AllClosed (s :: ss) ↔ s.isOpen = false ∧ AllClosed ss := List.forall_mem_cons

theorem allClosed_append {ss ts : List Sentence} :
    AllClosed (ss ++ ts) ↔ AllClosed ss ∧ AllClosed ts := List.forall_mem_append

mutual

theorem Body.allClosed_code (b : Body) (i : Nat) : AllClosed (b.code i) := by
  cases b with
  | nil => exact allClosed_nil
  | say line rest => exact allClosed_cons.mpr ⟨rfl, rest.allClosed_code _⟩
  | jump label rest => exact allClosed_cons.mpr ⟨rfl, rest.allClosed_code _⟩
  | menu lead options rest =>
    refine allClosed_cons.mpr ⟨rfl, allClosed_append.mpr ⟨lead.allClosed_code _, ?_⟩⟩
    refine allClosed_append.mpr ⟨options.allClosed_code _ _, ?_⟩
    exact allClosed_cons.mpr ⟨rfl, rest.allClosed_code _⟩
  | conditional condition body branches rest =>
    refine allClosed_cons.mpr ⟨rfl, allClosed_append.mpr ⟨body.allClosed_code _, ?_⟩⟩
    refine allClosed_append.mpr ⟨branches.allClosed_code _ _, ?_⟩
    exact allClosed_cons.mpr ⟨rfl, rest.allClosed_code _⟩

theorem Options.allClosed_code (o : Options) (own i : Nat) : AllClosed (o.code own i) := by
  cases o with
  | nil => exact allClosed_nil
  | cons text body rest =>
    refine allClosed_cons.mpr ⟨rfl, allClosed_append.mpr ⟨body.allClosed_code _, ?_⟩⟩
    exact rest.allClosed_code _ _

theorem Branches.allClosed_code (b : Branches) (own i : Nat) : AllClosed (b.code own i) := by
  cases b with
  | nil => exact allClosed_nil
  | otherwise body => exact allClosed_cons.mpr ⟨rfl, body.allClosed_code _⟩
  | cons condition body rest =>
    refine allClosed_cons.mpr ⟨rfl, allClosed_append.mpr ⟨body.allClosed_code _, ?_⟩⟩
    exact rest.allClosed_code _ _

end

section Open
variable {pre inner : List Sentence} {i : Nat}
variable (h : AllClosed inner) (hi : i = pre.length + 1 + inner.length)

theorem length_open (hi : i = pre.length + 1 + inner.length) (opener : Sentence) :
    (pre ++ opener :: inner).length = i := by
  simp only [List.length_append, List.length_cons]
  omega

include h

theorem lastOpen {p : Sentence → Bool} {opener : Sentence} (hp : ∀ s, p s = true → s.isOpen = true)
    (ho : p opener = true) : lastIndex? p (pre ++ opener :: inner) = some pre.length := by
  refine lastIndex?_append_cons ho fun s hs => ?_
  cases hps : p s with
  | false => rfl
  | true =>
    have := h s hs
    simp [hp s hps] at this

include hi

theorem grow_close {opener : Sentence} (ho : opener.isOpen = true) :
    grow (pre ++ opener :: inner) .close =
      some (pre ++ opener.closeAt i :: (inner ++ [.close])) := by
  have hlast : lastIndex? Sentence.isOpen (pre ++ opener :: inner) = some pre.length :=
    lastOpen h (fun _ hs => hs) ho
  simp only [grow, growClose, hlast, length_open hi, modify_append_cons, List.append_assoc,
    List.cons_append]

theorem grow_option (os : List MenuOption) (text : String) :
    grow (pre ++ .menu ⟨os, none⟩ :: inner) (.option text) =
      some (pre ++ .menu ⟨os ++ [⟨text, i + 1⟩], none⟩ :: (inner ++ [.option text pre.length])) := by
  have hlast : lastIndex? Sentence.isOpenMenu (pre ++ .menu ⟨os, none⟩ :: inner) =
      some pre.length :=
    lastOpen h (fun s hs => by simp [Sentence.isOpen, hs]) rfl
  simp only [grow, growOption, hlast, Option.map_some, length_open hi, modify_append_cons,
    Sentence.addOption, List.append_assoc, List.cons_append]

theorem growBranch_open {c : Conditional} (hopen : c.exit = none) (hmore : c.otherwise = none)
    (f : Nat → Sentence → Sentence) (marker : Nat → Sentence) :
    growBranch (pre ++ .conditional c :: inner) f marker =
      some (pre ++ f (i + 1) (.conditional c) :: (inner ++ [marker pre.length])) := by
  have hlast : lastIndex? Sentence.isOpenConditional (pre ++ .conditional c :: inner) =
      some pre.length :=
    lastOpen h (fun s hs => by simp [Sentence.isOpen, hs])
      (by simp [Sentence.isOpenConditional, hopen])
  have hno : hasOtherwiseIn (pre ++ .conditional c :: inner) pre.length = false := by
    simp [hasOtherwiseIn, Sentence.hasOtherwise, hmore]
  simp only [growBranch, hlast, Option.bind_some, hno, length_open hi, modify_append_cons,
    List.append_assoc, List.cons_append, Bool.false_eq_true, if_false]

end Open

theorem allClosed_part {inner : List Sentence} (h : AllClosed inner) {marker : Sentence}
    (hm : marker.isOpen = false) (body : Body) (i : Nat) :
    AllClosed (inner ++ [marker] ++ body.code i) :=
  allClosed_append.mpr
    ⟨allClosed_append.mpr ⟨h, allClosed_cons.mpr ⟨hm, allClosed_nil⟩⟩, body.allClosed_code i⟩

mutual

theorem Body.growAll_lines (b : Body) {ss : List Sentence} {i : Nat} (hi : i = ss.length) :
    growAll ss b.lines = some (ss ++ b.code i) := by
  have hnext : ∀ s : Sentence, i + 1 = (ss ++ [s]).length := fun s => by simp [hi]
  cases b with
  | nil => simp [Body.lines, Body.code]
  | say line rest =>
    rw [Body.lines, growAll_cons]
    simp only [grow, Option.bind_some]
    rw [rest.growAll_lines (hnext _)]
    simp [Body.code]
  | jump label rest =>
    rw [Body.lines, growAll_cons]
    simp only [grow, Option.bind_some]
    rw [rest.growAll_lines (hnext _)]
    simp [Body.code]
  | menu lead options rest =>
    have hlead := lead.allClosed_code (i + 1)
    have hopts : i + 1 + lead.size = ss.length + 1 + (lead.code (i + 1)).length := by simp [hi]
    have hinner : AllClosed (lead.code (i + 1) ++ options.code ss.length (i + 1 + lead.size)) :=
      allClosed_append.mpr ⟨hlead, options.allClosed_code _ _⟩
    have hclose : i + 1 + lead.size + options.size = ss.length + 1 +
        (lead.code (i + 1) ++ options.code ss.length (i + 1 + lead.size)).length := by
      simp only [List.length_append, Body.length_code, Options.length_code]
      omega
    rw [Body.lines, growAll_cons]
    simp only [grow, Option.bind_some]
    rw [growAll_append, lead.growAll_lines (hnext _), Option.bind_some, growAll_append,
      List.append_assoc, List.singleton_append, options.growAll_lines hlead hopts [],
      Option.bind_some, growAll_cons, grow_close hinner hclose rfl, Option.bind_some,
      rest.growAll_lines (i := i + 1 + lead.size + options.size + 1) (by simp; omega)]
    simp [Body.code, Sentence.closeAt, hi]
  | conditional condition body branches rest =>
    have hbody := body.allClosed_code (i + 1)
    have hbranches : i + 1 + body.size = ss.length + 1 + (body.code (i + 1)).length := by
      simp [hi]
    have hinner : AllClosed (body.code (i + 1) ++ branches.code ss.length (i + 1 + body.size)) :=
      allClosed_append.mpr ⟨hbody, branches.allClosed_code _ _⟩
    have hclose : i + 1 + body.size + branches.size = ss.length + 1 +
        (body.code (i + 1) ++ branches.code ss.length (i + 1 + body.size)).length := by
      simp only [List.length_append, Body.length_code, Branches.length_code]
      omega
    rw [Body.lines, growAll_cons]
    simp only [grow, Option.bind_some]
    rw [growAll_append, body.growAll_lines (hnext _), Option.bind_some, growAll_append,
      List.append_assoc, List.singleton_append, branches.growAll_lines hbody hbranches condition [],
      Option.bind_some, growAll_cons, grow_close hinner hclose rfl, Option.bind_some,
      rest.growAll_lines (i := i + 1 + body.size + branches.size + 1) (by simp; omega)]
    simp [Body.code, Sentence.closeAt, hi]

theorem Options.growAll_lines (o : Options) {pre inner : List Sentence} {i : Nat}
    (h : AllClosed inner) (hi : i = pre.length + 1 + inner.length) (os : List MenuOption) :
    growAll (pre ++ .menu ⟨os, none⟩ :: inner) o.lines =
      some (pre ++ .menu ⟨os ++ o.entries i, none⟩ :: (inner ++ o.code pre.length i)) := by
  cases o with
  | nil => simp [Options.lines, Options.code, Options.entries]
  | cons text body rest =>
    have hbody : ∀ opener : Sentence,
        i + 1 = (pre ++ opener :: (inner ++ [.option text pre.length])).length := fun opener => by
      simp only [List.length_append, List.length_cons, List.length_nil]
      omega
    have hrest : i + 1 + body.size = pre.length + 1 +
        (inner ++ [Sentence.option text pre.length] ++ body.code (i + 1)).length := by
      simp only [List.length_append, List.length_cons, List.length_nil, Body.length_code]
      omega
    rw [Options.lines, growAll_cons, grow_option h hi, Option.bind_some, growAll_append,
      body.growAll_lines (hbody _), Option.bind_some, List.append_assoc, List.cons_append,
      rest.growAll_lines (allClosed_part h rfl body (i + 1)) hrest]
    simp [Options.entries, Options.code]

theorem Branches.growAll_lines (b : Branches) {pre inner : List Sentence} {i : Nat}
    (h : AllClosed inner) (hi : i = pre.length + 1 + inner.length) (condition : String)
    (bs : List Branch) :
    growAll (pre ++ .conditional ⟨condition, bs, none, none⟩ :: inner) b.lines =
      some (pre ++ .conditional ⟨condition, bs ++ b.entries i, b.last? i, none⟩ ::
        (inner ++ b.code pre.length i)) := by
  have hbody : ∀ opener marker : Sentence,
      i + 1 = (pre ++ opener :: (inner ++ [marker])).length := fun opener marker => by
    simp only [List.length_append, List.length_cons, List.length_nil]
    omega
  cases b with
  | nil => simp [Branches.lines, Branches.code, Branches.entries, Branches.last?]
  | otherwise body =>
    rw [Branches.lines, growAll_cons, grow, growBranch_open h hi rfl rfl, Option.bind_some,
      body.growAll_lines (hbody _ _)]
    simp [Branches.entries, Branches.code, Branches.last?, Sentence.setOtherwise]
  | cons c body rest =>
    have hrest : i + 1 + body.size = pre.length + 1 +
        (inner ++ [Sentence.branch c pre.length] ++ body.code (i + 1)).length := by
      simp only [List.length_append, List.length_cons, List.length_nil, Body.length_code]
      omega
    rw [Branches.lines, growAll_cons, grow, growBranch_open h hi rfl rfl, Option.bind_some,
      growAll_append, body.growAll_lines (hbody _ _), Option.bind_some, List.append_assoc,
      List.cons_append, Sentence.addBranch,
      rest.growAll_lines (allClosed_part h rfl body (i + 1)) hrest]
    simp [Branches.entries, Branches.code, Branches.last?]

end

theorem Outline.growAll_lines (o : Outline) {ss : List Sentence} {i : Nat} (hi : i = ss.length)
    (h : AllClosed ss) : growAll ss o.lines = some (ss ++ o.code i) := by
  induction o generalizing ss i with
  | body b => exact b.growAll_lines hi
  | stray before after ih =>
    have hbefore : AllClosed (ss ++ before.code i) :=
      allClosed_append.mpr ⟨h, before.allClosed_code i⟩
    have hstray : grow (ss ++ before.code i) .close = some (ss ++ before.code i ++ [.close]) := by
      have hnone : lastIndex? Sentence.isOpen (ss ++ before.code i) = none :=
        lastIndex?_eq_none_iff.mpr hbefore
      simp only [grow, growClose, hnone]
    have hnext : AllClosed (ss ++ before.code i ++ [.close]) :=
      allClosed_append.mpr ⟨hbefore, allClosed_cons.mpr ⟨rfl, allClosed_nil⟩⟩
    rw [Outline.lines, growAll_append, before.growAll_lines hi, Option.bind_some, growAll_cons,
      hstray, Option.bind_some, ih (i := i + before.size + 1) (by simp [hi, Nat.add_assoc]) hnext]
    simp [Outline.code]

theorem Grown.eq_code {ss : List Sentence} (h : Grown ss) {o : Outline}
    (hl : o.lines = lines ss) : ss = o.code 0 := by
  have hgrow : growAll [] o.lines = some ([] ++ o.code 0) := o.growAll_lines rfl allClosed_nil
  rw [hl, h] at hgrow
  exact Option.some.inj hgrow

end Fabula.Script
