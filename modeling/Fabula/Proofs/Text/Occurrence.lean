import Mathlib.Data.List.Infix
import Fabula.Text.Split

/-!
# Occurrences of a pattern

A text is cut at the first place where a pattern occurs. A character that is not part of the
pattern stands between its occurrences: none reaches from one side of the character to the other.
-/

namespace Fabula.Text

/-- The first occurrence of a pattern in a text, with what comes before and after it. -/
structure FirstAt (pattern cs before after : List Char) : Prop where
  split : cs = before ++ pattern ++ after
  first : ∀ l r, cs = l ++ pattern ++ r → before.length ≤ l.length

section
variable {pattern cs before after xs ys : List Char} {c mark : Char}

namespace FirstAt

theorem occurs (h : FirstAt pattern cs before after) : pattern <:+: cs :=
  ⟨before, after, h.split.symm⟩

theorem unique {before' after' : List Char} (h : FirstAt pattern cs before after)
    (h' : FirstAt pattern cs before' after') : before = before' ∧ after = after' := by
  have hle := h.first before' after' h'.split
  have hge := h'.first before after h.split
  have hsplit : before ++ (pattern ++ after) = before' ++ (pattern ++ after') := by
    rw [← List.append_assoc, ← List.append_assoc, ← h.split, h'.split]
  obtain ⟨hbefore, hrest⟩ := List.append_inj hsplit (Nat.le_antisymm hle hge)
  exact ⟨hbefore, List.append_cancel_left hrest⟩

theorem of_append (pattern after : List Char) : FirstAt pattern (pattern ++ after) [] after :=
  ⟨rfl, fun _ _ _ => Nat.zero_le _⟩

theorem cons (h : FirstAt pattern cs before after) (hnot : ¬ pattern <+: c :: cs) :
    FirstAt pattern (c :: cs) (c :: before) after := by
  constructor
  · rw [h.split]
    rfl
  · intro l r hlr
    cases l with
    | nil =>
      have hprefix : pattern <+: c :: cs := ⟨r, hlr.symm⟩
      exact absurd hprefix hnot
    | cons d l =>
      have hcs : cs = l ++ pattern ++ r := (List.cons.inj hlr).2
      exact Nat.succ_le_succ (h.first l r hcs)

end FirstAt

theorem isPrefixOf?_eq_none_iff : pattern.isPrefixOf? cs = none ↔ ¬ pattern <+: cs := by
  rw [Option.eq_none_iff_forall_ne_some]
  constructor
  · rintro hnone ⟨after, hcs⟩
    exact hnone after (List.isPrefixOf?_eq_some_iff_append_eq.mpr hcs)
  · intro hnot after hsome
    exact hnot ⟨after, List.isPrefixOf?_eq_some_iff_append_eq.mp hsome⟩

theorem cutAtText_eq_none_iff : cutAtText pattern cs = none ↔ ¬ pattern <:+: cs := by
  induction cs with
  | nil => simp [cutAtText]
  | cons c cs ih =>
    rw [cutAtText, List.infix_cons_iff, not_or, ← ih, ← isPrefixOf?_eq_none_iff]
    cases hfront : pattern.isPrefixOf? (c :: cs) with
    | none => simp
    | some after => simp

theorem firstAt_of_cutAtText (h : cutAtText pattern cs = some (before, after)) :
    FirstAt pattern cs before after := by
  induction cs generalizing before after with
  | nil =>
    have hnil : pattern = [] := by
      by_contra hne
      simp [cutAtText, hne] at h
    subst hnil
    obtain ⟨rfl, rfl⟩ : [] = before ∧ [] = after := by simpa [cutAtText] using h
    exact .of_append [] []
  | cons c cs ih =>
    rw [cutAtText] at h
    cases hfront : pattern.isPrefixOf? (c :: cs) with
    | some rest =>
      rw [hfront] at h
      obtain ⟨rfl, rfl⟩ : [] = before ∧ rest = after := by simpa using h
      rw [← List.isPrefixOf?_eq_some_iff_append_eq.mp hfront]
      exact .of_append pattern rest
    | none =>
      rw [hfront] at h
      obtain ⟨⟨front, rest⟩, hcut, hpair⟩ := Option.map_eq_some_iff.mp h
      obtain ⟨rfl, rfl⟩ := Prod.mk.inj hpair
      exact (ih hcut).cons (isPrefixOf?_eq_none_iff.mp hfront)

theorem cutAtText_eq_some_iff :
    cutAtText pattern cs = some (before, after) ↔ FirstAt pattern cs before after := by
  constructor
  · exact firstAt_of_cutAtText
  · intro h
    cases hcut : cutAtText pattern cs with
    | none => exact absurd h.occurs (cutAtText_eq_none_iff.mp hcut)
    | some parts =>
      obtain ⟨rfl, rfl⟩ := (firstAt_of_cutAtText hcut).unique h
      rfl

/-- No occurrence reaches across a character that is not part of the pattern. -/
theorem infix_append_cons_iff (hmark : mark ∉ pattern) :
    pattern <:+: xs ++ mark :: ys ↔ pattern <:+: xs ∨ pattern <:+: ys := by
  constructor
  · intro h
    rcases List.infix_append_iff.mp h with hxs | hys | ⟨front, rest, rfl, hfront, hrest⟩
    · exact .inl hxs
    · rcases List.infix_cons_iff.mp hys with hprefix | hys
      · cases pattern with
        | nil => exact .inl List.nil_infix
        | cons c pattern =>
          obtain ⟨rfl, -⟩ := List.cons_prefix_cons.mp hprefix
          exact absurd List.mem_cons_self hmark
      · exact .inr hys
    · cases rest with
      | nil =>
        rw [List.append_nil]
        exact .inl hfront.isInfix
      | cons c rest =>
        obtain ⟨rfl, -⟩ := List.cons_prefix_cons.mp hrest
        exact absurd (List.mem_append_right front List.mem_cons_self) hmark
  · rintro (hxs | hys)
    · exact hxs.trans (List.prefix_append xs _).isInfix
    · exact hys.trans ((List.suffix_cons mark ys).trans (List.suffix_append xs _)).isInfix

/-- A pattern that follows such a character occurs there first, if it does not occur before. -/
theorem firstAt_of_mark (hmark : mark ∉ pattern) (hbefore : ¬ pattern <:+: before)
    (after : List Char) :
    FirstAt pattern (before ++ mark :: (pattern ++ after)) (before ++ [mark]) after := by
  constructor
  · simp
  · intro l r hlr
    by_contra hshort
    rw [Nat.not_le, List.length_append, List.length_singleton] at hshort
    -- an earlier occurrence begins before the mark, so it ends before the mark or contains it
    rcases List.append_eq_append_iff.mp hlr with ⟨beyond, hl, hbeyond⟩ | ⟨beyond, rfl, -⟩
    · cases beyond with
      | nil => exact hbefore ⟨l, [], by rw [hl, List.append_nil, List.append_nil]⟩
      | cons c beyond =>
        obtain rfl : mark = c := (List.cons.inj hbeyond).1
        rcases List.append_eq_append_iff.mp hl with ⟨inner, -, hpattern⟩ | ⟨inner, rfl, hpattern⟩
        · exact hmark (by rw [hpattern]; simp)
        · obtain rfl : inner = [] := by
            rw [List.length_append] at hshort
            exact List.length_eq_zero_iff.mp (by omega)
          exact hmark (by rw [← List.nil_append pattern, ← hpattern]; exact List.mem_cons_self)
    · exact hbefore (List.infix_append l pattern beyond)

end

end Fabula.Text
