import Fabula.Proofs.Script.Nesting

/-!
# Parts of a block

The markers of a block cut it into parts: a menu into its lead, which comes before its first
option, and the bodies of its options, a conditional into the bodies of its branches. `OnePart`
says of a list of executed sentences that they keep to one part of each block, and `Exclusive`
that they keep to one body, leads not counted. `Clear` is what has to be known, when control comes
to a sentence, for `OnePart` to last.
-/

namespace Fabula.Script

variable {ss : List Sentence} {seen : List Nat} {own e n t m : Nat}

/-- The sentence at `m` is a marker of the block opened at `own`. -/
def MarkerOf (ss : List Sentence) (own m : Nat) : Prop :=
  ∃ s, ss[m]? = some s ∧ s.owner? = some own

theorem markerOf_iff : MarkerOf ss own m ↔ ss[m]?.bind Sentence.owner? = some own :=
  Option.bind_eq_some_iff.symm

instance (ss : List Sentence) (own m : Nat) : Decidable (MarkerOf ss own m) :=
  decidable_of_iff _ markerOf_iff.symm

/-- The sentence at `a` stands in a part of the block from `own` to `e`. -/
structure InPart (ss : List Sentence) (own e a : Nat) : Prop where
  after : own < a
  before : a < e
  unmarked : ¬ MarkerOf ss own a

/-- No sentence is executed twice, and those executed in a block stand in one part of it: none of
its markers lies between them. -/
structure OnePart (ss : List Sentence) (seen : List Nat) : Prop where
  forward : seen.Pairwise (· < ·)
  one_part : ∀ own e a b m, exitAt ss own = some e → own ∈ seen → a ∈ seen → b ∈ seen →
    InPart ss own e a → InPart ss own e b → MarkerOf ss own m → ¬ (a < m ∧ m < b)

/-- The sentence at `a` comes before the options of the menu at `own`. -/
structure InLead (ss : List Sentence) (own a : Nat) : Prop where
  menu : ∃ m, ss[own]? = some (.menu m)
  before_options : ∀ m, MarkerOf ss own m → a < m

/-- The sentence at `a` stands in the body of an option or of a branch of the block. -/
structure InBody (ss : List Sentence) (own e a : Nat) : Prop extends InPart ss own e a where
  not_lead : ¬ InLead ss own a

/-- No sentence is executed twice, and of the bodies of a block at most one has sentences
executed: no marker lies between those executed in bodies. -/
structure Exclusive (ss : List Sentence) (seen : List Nat) : Prop where
  forward : seen.Pairwise (· < ·)
  one_body : ∀ own e a b m, exitAt ss own = some e → own ∈ seen → a ∈ seen → b ∈ seen →
    InBody ss own e a → InBody ss own e b → MarkerOf ss own m → ¬ (a < m ∧ m < b)

theorem OnePart.exclusive (h : OnePart ss seen) : Exclusive ss seen where
  forward := h.forward
  one_body own e a b m he hown ha hb hina hinb :=
    h.one_part own e a b m he hown ha hb hina.toInPart hinb.toInPart

/-- Sentences have been executed before `n` only, and in a block around `n` only in the part where
`n` stands. -/
def Clear (ss : List Sentence) (seen : List Nat) (n : Nat) : Prop :=
  ∀ a ∈ seen, a < n ∧ ∀ own e m, exitAt ss own = some e → own < a → n < e →
    MarkerOf ss own m → ¬ (a < m ∧ m < n)

theorem OnePart.nil (ss : List Sentence) : OnePart ss [] :=
  ⟨.nil, by simp⟩

theorem OnePart.concat (h : OnePart ss seen) (hc : Clear ss seen n) :
    OnePart ss (seen ++ [n]) := by
  constructor
  · refine List.pairwise_append.mpr ⟨h.forward, List.pairwise_singleton .., ?_⟩
    intro a ha b hb
    obtain rfl := List.mem_singleton.mp hb
    exact (hc a ha).1
  · intro own e a b m he hown ha hb hina hinb hm hbetween
    have hab : a < b := by omega
    rw [List.mem_append, List.mem_singleton] at hown ha hb
    have hbound : ∀ c, c ∈ seen ∨ c = n → c ≤ n := by
      rintro c (hc' | rfl)
      · exact Nat.le_of_lt (hc c hc').1
      · exact Nat.le_refl _
    have hbn := hbound b hb
    have hseen : ∀ c, c ∈ seen ∨ c = n → c < n → c ∈ seen :=
      fun c hc' hlt => hc'.resolve_right (by omega)
    have ha' := hseen a ha (by omega)
    have hown' := hseen own hown (by have := hina.after; omega)
    rcases hb with hb' | rfl
    · exact h.one_part own e a b m he hown' ha' hb' hina hinb hm hbetween
    · exact (hc a ha').2 own e m he hina.after hinb.before hm hbetween

theorem Clear.concat (h : Clear ss seen n) {s : Sentence} (hs : ss[n]? = some s)
    (ho : s.owner? = none) : Clear ss (seen ++ [n]) (n + 1) := by
  intro a ha
  rcases List.mem_append.mp ha with ha | ha
  · obtain ⟨han, hclear⟩ := h a ha
    refine ⟨by omega, ?_⟩
    intro own e m he hown hn hm hbetween
    have hmn : m ≠ n := by
      rintro rfl
      obtain ⟨t, ht, hto⟩ := hm
      obtain rfl := Option.some.inj (hs.symm.trans ht)
      simp [ho] at hto
    exact hclear own e m he hown (by omega) hm ⟨hbetween.1, by omega⟩
  · obtain rfl := List.mem_singleton.mp ha
    exact ⟨by omega, fun _ _ _ _ _ _ _ => by omega⟩

theorem head_of_marker (hd : Direct ss) (hm : MarkerOf ss own m) :
    (openBefore (lines ss) m).head? = some own := by
  obtain ⟨s, hs, ho⟩ := hm
  exact hd m s own hs ho

/-- Inside a block, only that block and blocks inside it have markers. -/
theorem owner_inside (hg : Grown ss) (hd : Direct ss) {block : Nat}
    (he : exitAt ss block = some e) (hbm : block < m) (hme : m < e) (hm : MarkerOf ss own m) :
    block ≤ own := by
  have hcloses := (hg.matched block e).mp he
  have hmem : block ∈ openBefore (lines ss) m :=
    mem_openBefore_iff.mpr ⟨hcloses.opensAt, hbm, fun f hf => by rw [hf.unique hcloses]; omega⟩
  exact le_of_mem_of_head (head_of_marker hd hm) hmem

theorem Clear.enter (h : Clear ss seen (n + 1)) (hg : Grown ss) (hd : Direct ss)
    (he : exitAt ss n = some e) (hnt : n < t) (hte : t ≤ e) : Clear ss seen t := by
  intro a ha
  obtain ⟨han, hclear⟩ := h a ha
  refine ⟨by omega, ?_⟩
  intro own f m hf hown htf hm hbetween
  by_cases hmn : m < n + 1
  · exact hclear own f m hf hown (by omega) hm ⟨hbetween.1, hmn⟩
  · have := owner_inside hg hd he (by omega) (by omega) hm
    omega

theorem Clear.leave (h : Clear ss seen n) (hg : Grown ss) (hd : Direct ss)
    (hn : MarkerOf ss own n) (he : exitAt ss own = some e) : Clear ss seen e := by
  obtain ⟨s, hs, ho⟩ := id hn
  obtain ⟨hown, _, hlate⟩ := hg.attached.owned n s own hs ho
  have hne := hlate e he
  intro a ha
  obtain ⟨han, hclear⟩ := h a ha
  refine ⟨by omega, ?_⟩
  intro outer f m hf houter hef hm hbetween
  by_cases hmn : m < n
  · exact hclear outer f m hf houter (by omega) hm ⟨hbetween.1, hmn⟩
  · have hle := owner_inside hg hd he (by omega) hbetween.2 hm
    have hne : own ≠ outer := by
      rintro rfl
      obtain rfl := Option.some.inj (he.symm.trans hf)
      omega
    -- the block around both would have to close inside the one that is left
    have hnested := ((hg.matched own e).mp he).nested_or_disjoint ((hg.matched outer f).mp hf)
      (by omega)
    omega

theorem exit_of_closed (hclosed : AllClosed ss) {s : Sentence} (hs : ss[n]? = some s)
    (ho : s.line.isOpener = true) : ∃ e, exitAt ss n = some e := by
  cases he : exitAt ss n with
  | some e => exact ⟨e, rfl⟩
  | none =>
    have hnone : s.exit? = none := by
      rw [exitAt, hs] at he
      exact he
    have hopen := (Sentence.isOpen_iff s).mpr ⟨ho, hnone⟩
    simp [hclosed s (List.mem_of_getElem? hs)] at hopen

theorem exit_of_owner (hg : Grown ss) (hclosed : AllClosed ss) {s : Sentence}
    (hs : ss[n]? = some s) (ho : s.owner? = some own) : ∃ e, exitAt ss own = some e := by
  obtain ⟨_, ⟨l, hl, hopener⟩, _⟩ := hg.attached.owned n s own hs ho
  rw [getElem?_lines] at hl
  obtain ⟨t, ht, rfl⟩ := Option.map_eq_some_iff.mp hl
  exact exit_of_closed hclosed ht hopener

end Fabula.Script
