import Fabula.Script.Draft

/-!
# Searching backward and changing a sentence

The backward search is characterised by what it finds: an index whose element satisfies the
predicate, with none after it that does. Changing one element of a list leaves every view of the
list alone that does not see the change.
-/

namespace Fabula.Script

section Search
variable {α β : Type} {p : α → Bool} {xs ys : List α}

theorem lastIndex?_eq_none_iff : lastIndex? p xs = none ↔ ∀ x ∈ xs, p x = false := by
  induction xs with
  | nil => simp [lastIndex?]
  | cons x rest ih =>
    cases hr : lastIndex? p rest with
    | some k =>
      have hne : ¬ ∀ y ∈ rest, p y = false := fun h => by simp [ih.mpr h] at hr
      simp only [lastIndex?, hr, List.forall_mem_cons]
      exact ⟨fun h => by simp at h, fun h => absurd h.2 hne⟩
    | none =>
      have hall := ih.mp hr
      simp only [lastIndex?, hr, List.forall_mem_cons]
      cases hx : p x <;> simp
      exact hall

theorem lastIndex?_eq_some_iff {i : Nat} :
    lastIndex? p xs = some i ↔
      (∃ x, xs[i]? = some x ∧ p x = true) ∧ ∀ j x, i < j → xs[j]? = some x → p x = false := by
  induction xs generalizing i with
  | nil => simp [lastIndex?]
  | cons x rest ih =>
    cases hr : lastIndex? p rest with
    | some k =>
      obtain ⟨⟨z, hz, hpz⟩, hlast⟩ := (ih (i := k)).mp hr
      simp only [lastIndex?, hr, Option.some.injEq]
      constructor
      · rintro rfl
        refine ⟨⟨z, by simpa using hz, hpz⟩, ?_⟩
        rintro (_ | j) y hj hy
        · omega
        · exact hlast j y (by omega) (by simpa using hy)
      · rintro ⟨⟨y, hy, hpy⟩, hafter⟩
        have hki : ¬ i < k + 1 := fun hlt => by
          have := hafter (k + 1) z hlt (by simpa using hz)
          simp [hpz] at this
        cases i with
        | zero => omega
        | succ i =>
          have hik : ¬ k < i := fun hlt => by
            have := hlast i y hlt (by simpa using hy)
            simp [hpy] at this
          omega
    | none =>
      have hall := lastIndex?_eq_none_iff.mp hr
      simp only [lastIndex?, hr]
      constructor
      · intro h
        split at h
        · rename_i hx
          obtain rfl := Option.some.inj h
          refine ⟨⟨x, rfl, hx⟩, ?_⟩
          rintro (_ | j) y hj hy
          · omega
          · exact hall y (List.mem_of_getElem? (by simpa using hy))
        · simp at h
      · rintro ⟨⟨y, hy, hpy⟩, _⟩
        cases i with
        | zero =>
          obtain rfl : x = y := by simpa using hy
          simp [hpy]
        | succ i =>
          have := hall y (List.mem_of_getElem? (by simpa using hy))
          simp [hpy] at this

theorem lastIndex?_map (f : α → β) (q : β → Bool) :
    lastIndex? q (xs.map f) = lastIndex? (fun x => q (f x)) xs := by
  induction xs with
  | nil => rfl
  | cons x rest ih => simp only [List.map_cons, lastIndex?, ih]

theorem lastIndex?_append_cons {x : α} (hx : p x = true) (hys : ∀ y ∈ ys, p y = false) :
    lastIndex? p (xs ++ x :: ys) = some xs.length := by
  apply lastIndex?_eq_some_iff.mpr
  refine ⟨⟨x, by simp, hx⟩, ?_⟩
  intro j y hj hy
  rw [List.getElem?_append_right (by omega)] at hy
  obtain ⟨k, hk⟩ : ∃ k, j - xs.length = k + 1 := ⟨j - xs.length - 1, by omega⟩
  rw [hk, List.getElem?_cons_succ] at hy
  exact hys y (List.mem_of_getElem? hy)

end Search

theorem getElem?_append_of_eq_some {α : Type} {xs ys : List α} {i : Nat} {x : α}
    (h : xs[i]? = some x) : (xs ++ ys)[i]? = some x := by
  obtain ⟨hi, _⟩ := List.getElem?_eq_some_iff.mp h
  rw [List.getElem?_append_left hi, h]

theorem getElem?_concat_eq_some {α : Type} {xs : List α} {x y : α} {i : Nat} :
    (xs ++ [x])[i]? = some y ↔ xs[i]? = some y ∨ i = xs.length ∧ y = x := by
  rcases Nat.lt_or_ge i xs.length with hlt | hge
  · rw [List.getElem?_append_left hlt]
    exact ⟨.inl, fun h => h.resolve_right fun h => by omega⟩
  · rw [List.getElem?_append_right hge, List.getElem?_eq_none hge, List.getElem?_singleton]
    split
    · have hi : i = xs.length := by omega
      simp [hi, eq_comm]
    · have hi : i ≠ xs.length := by omega
      simp [hi]

section Modify
variable {α β : Type} {xs : List α} {f : α → α}

theorem getElem?_modify_eq_some {y : α} {i j : Nat} :
    (xs.modify i f)[j]? = some y ↔ ∃ x, xs[j]? = some x ∧ y = if i = j then f x else x := by
  rw [List.getElem?_modify]
  cases xs[j]? <;> simp [eq_comm]

theorem map_modify_of_comp_eq {g : α → β} (h : ∀ x, g (f x) = g x) (i : Nat) :
    (xs.modify i f).map g = xs.map g := by
  induction xs generalizing i with
  | nil => simp
  | cons x rest ih => cases i <;> simp [h, ih]

theorem modify_append_of_lt {ys : List α} {i : Nat} (h : i < xs.length) :
    (xs ++ ys).modify i f = xs.modify i f ++ ys := by
  induction xs generalizing i with
  | nil => simp at h
  | cons x rest ih =>
    cases i with
    | zero => simp
    | succ i => simp [ih (by simpa using h : i < rest.length)]

theorem modify_append_cons {x : α} {ys : List α} :
    (xs ++ x :: ys).modify xs.length f = xs ++ f x :: ys := by
  induction xs with
  | nil => rfl
  | cons y rest ih => simp [ih]

theorem filterMap_zipIdx_modify {g : α × Nat → Option β} (h : ∀ x j, g (f x, j) = g (x, j))
    (i k : Nat) : ((xs.modify i f).zipIdx k).filterMap g = (xs.zipIdx k).filterMap g := by
  induction xs generalizing i k with
  | nil => simp
  | cons x rest ih =>
    cases i with
    | zero => simp [List.filterMap_cons, h]
    | succ i => simp [List.filterMap_cons, ih]

end Modify

end Fabula.Script
