import Mathlib.Data.List.Forall2
import Fabula.Player.Turn

/-!
# Templates as sequences of fragments

A text can be shown if it is a sequence of fragments, plain texts and names in braces, without any
other brace. It then shows the plain texts as they are and for each name the value of a variable;
what is shown for one fragment is not read again, so two texts are shown one after the other as
their concatenation is. Every other text is refused.
-/

namespace Fabula.Template

/-- A part of a template. -/
inductive Fragment where
  | text (cs : List Char)
  | placeholder (name : List Char)

/-- Neither of the two braces is among the characters. -/
def BraceFree (cs : List Char) : Prop := '\x7b' ∉ cs ∧ '\x7d' ∉ cs

namespace Fragment

def written : Fragment → List Char
  | text cs => cs
  | placeholder name => '\x7b' :: (name ++ ['\x7d'])

def Plain : Fragment → Prop
  | text cs => BraceFree cs
  | placeholder name => BraceFree name

/-- What a fragment shows: a text itself, and for a variable its string, the compact JSON of
another value, or nothing when it is not set. -/
inductive Shows (store : Store) : Fragment → List Char → Prop
  | text (cs : List Char) : Shows store (.text cs) cs
  | string {name : List Char} {s : String} :
      store.get? (String.ofList (Text.trim name)) = some (.str s) →
      Shows store (.placeholder name) s.toList
  | value {name : List Char} {value : Json} :
      store.get? (String.ofList (Text.trim name)) = some value → (∀ s, value ≠ .str s) →
      Shows store (.placeholder name) value.write
  | unset {name : List Char} : store.get? (String.ofList (Text.trim name)) = none →
      Shows store (.placeholder name) []

/-- The pieces of which a fragment consists. -/
def pieces : Fragment → List Piece
  | text cs => cs.map .char
  | placeholder name => [.placeholder name]

end Fragment

/-- The text is the sequence of the fragments, each of them plain. -/
def Composed (fragments : List Fragment) (cs : List Char) : Prop :=
  (∀ f ∈ fragments, f.Plain) ∧ cs = fragments.flatMap Fragment.written

section
variable {store : Store} {cs ds name rest : List Char} {fragments more : List Fragment}
  {c : Char}

theorem braceFree_cons : BraceFree (c :: cs) ↔ (c ≠ '\x7b' ∧ c ≠ '\x7d') ∧ BraceFree cs := by
  simp only [BraceFree, List.mem_cons, not_or, ne_eq, @eq_comm Char c]
  exact and_and_and_comm

theorem Composed.append (h : Composed fragments cs) (h' : Composed more ds) :
    Composed (fragments ++ more) (cs ++ ds) := by
  refine ⟨fun f hf => ?_, by rw [List.flatMap_append, ← h.2, ← h'.2]⟩
  rcases List.mem_append.mp hf with hf | hf
  · exact h.1 f hf
  · exact h'.1 f hf

theorem Composed.cons {f : Fragment} (hf : f.Plain) (h : Composed fragments cs) :
    Composed (f :: fragments) (f.written ++ cs) := by
  refine ⟨List.forall_mem_cons.mpr ⟨hf, h.1⟩, ?_⟩
  rw [List.flatMap_cons, ← h.2]

theorem pieces?_text (h : BraceFree cs) (rest : List Char) :
    pieces? (cs ++ rest) = (pieces? rest).map (cs.map .char ++ ·) := by
  induction cs with
  | nil => simp
  | cons c cs ih =>
    obtain ⟨⟨hopen, hclose⟩, hcs⟩ := braceFree_cons.mp h
    rw [List.cons_append, pieces?, if_neg hopen, if_neg hclose, ih hcs, Option.map_map]
    rfl

theorem nameAndPieces?_append (h : BraceFree name) (read rest : List Char) :
    nameAndPieces? read (name ++ '\x7d' :: rest) =
      (pieces? rest).map (.placeholder (read.reverse ++ name) :: ·) := by
  induction name generalizing read with
  | nil => simp [nameAndPieces?]
  | cons c name ih =>
    obtain ⟨⟨hopen, hclose⟩, hname⟩ := braceFree_cons.mp h
    rw [List.cons_append, nameAndPieces?, if_neg hopen, if_neg hclose, ih hname]
    simp

theorem pieces?_written {f : Fragment} (h : f.Plain) (rest : List Char) :
    pieces? (f.written ++ rest) = (pieces? rest).map (f.pieces ++ ·) := by
  cases f with
  | text cs => exact pieces?_text h rest
  | placeholder name =>
    have hwritten : (Fragment.placeholder name).written ++ rest =
        '\x7b' :: (name ++ '\x7d' :: rest) := by simp [Fragment.written]
    rw [hwritten, pieces?, if_pos rfl, nameAndPieces?_append h]
    rfl

theorem pieces?_of_composed (h : Composed fragments cs) :
    pieces? cs = some (fragments.flatMap Fragment.pieces) := by
  obtain ⟨hplain, rfl⟩ := h
  induction fragments with
  | nil => simp [pieces?]
  | cons f fragments ih =>
    obtain ⟨hf, hplain⟩ := List.forall_mem_cons.mp hplain
    rw [List.flatMap_cons, pieces?_written hf, ih hplain]
    rfl

/-- Pieces are read from sequences of fragments only, and inside a placeholder from the rest of a
name, the brace that closes it, and such a sequence. -/
theorem composed_of_isSome (cs : List Char) :
    ((pieces? cs).isSome = true → ∃ fragments, Composed fragments cs) ∧
    ∀ read, (nameAndPieces? read cs).isSome = true → ∃ name rest fragments,
      BraceFree name ∧ cs = name ++ '\x7d' :: rest ∧ Composed fragments rest := by
  induction cs with
  | nil => exact ⟨fun _ => ⟨[], by simp, rfl⟩, fun read h => by simp [nameAndPieces?] at h⟩
  | cons c cs ih =>
    obtain ⟨hpieces, hname⟩ := ih
    by_cases hopen : c = '\x7b'
    · subst hopen
      refine ⟨fun h => ?_, fun read h => by simp [nameAndPieces?] at h⟩
      rw [pieces?, if_pos rfl] at h
      obtain ⟨name, rest, fragments, hfree, rfl, hrest⟩ := hname [] h
      have hall := hrest.cons (f := .placeholder name) hfree
      exact ⟨_, by simpa [Fragment.written] using hall⟩
    · by_cases hclose : c = '\x7d'
      · subst hclose
        refine ⟨fun h => by simp [pieces?] at h, fun read h => ?_⟩
        rw [nameAndPieces?, if_neg hopen, if_pos rfl, Option.isSome_map] at h
        obtain ⟨fragments, hrest⟩ := hpieces h
        exact ⟨[], cs, fragments, by simp [BraceFree], rfl, hrest⟩
      · have hfree {ds : List Char} (hds : BraceFree ds) : BraceFree (c :: ds) :=
          braceFree_cons.mpr ⟨⟨hopen, hclose⟩, hds⟩
        constructor
        · intro h
          rw [pieces?, if_neg hopen, if_neg hclose, Option.isSome_map] at h
          obtain ⟨fragments, hrest⟩ := hpieces h
          exact ⟨_, hrest.cons (f := .text [c]) (hfree (by simp [BraceFree]))⟩
        · intro read h
          rw [nameAndPieces?, if_neg hopen, if_neg hclose] at h
          obtain ⟨name, rest, fragments, hds, rfl, hrest⟩ := hname (c :: read) h
          exact ⟨c :: name, rest, fragments, hfree hds, rfl, hrest⟩

theorem shows_iff {f : Fragment} {shown : List Char} :
    f.Shows store shown ↔ shown = f.pieces.flatMap (·.expand store) := by
  cases f with
  | text cs =>
    have hsame : (Fragment.text cs).pieces.flatMap (·.expand store) = cs := by
      simp [Fragment.pieces, Piece.expand, List.flatMap_map]
    rw [hsame]
    constructor
    · rintro ⟨⟩
      rfl
    · rintro rfl
      exact .text shown
  | placeholder name =>
    have hsame : (Fragment.placeholder name).pieces.flatMap (·.expand store) =
        insertion (store.get? (String.ofList (Text.trim name))) := by
      simp [Fragment.pieces, Piece.expand]
    rw [hsame]
    constructor
    · intro h
      cases h with
      | string hvalue => rw [hvalue, insertion]
      | @value _ value hvalue hother =>
        rw [hvalue]
        cases value with
        | str s => exact absurd rfl (hother s)
        | null | bool _ | int _ | float _ | arr _ | obj _ => rfl
      | unset hvalue => rw [hvalue, insertion]
    · rintro rfl
      cases hvalue : store.get? (String.ofList (Text.trim name)) with
      | none => exact .unset hvalue
      | some value =>
        cases value with
        | str s => exact .string hvalue
        | null | bool _ | int _ | float _ | arr _ | obj _ => exact .value hvalue (by simp)

theorem forall₂_shows_iff {shown : List (List Char)} :
    List.Forall₂ (Fragment.Shows store) fragments shown ↔
      shown = fragments.map fun f => f.pieces.flatMap (·.expand store) := by
  induction fragments generalizing shown with
  | nil => simp
  | cons f fragments ih =>
    cases shown with
    | nil => simp
    | cons cs shown => rw [List.forall₂_cons, shows_iff, ih, List.map_cons, List.cons.injEq]

theorem render?_eq_some_iff {content text : String} :
    render? store content = some text ↔ ∃ fragments shown, Composed fragments content.toList ∧
      List.Forall₂ (Fragment.Shows store) fragments shown ∧ text.toList = shown.flatten := by
  simp only [forall₂_shows_iff]
  constructor
  · intro h
    obtain ⟨ps, hps, rfl⟩ := Option.map_eq_some_iff.mp h
    obtain ⟨fragments, hfragments⟩ := (composed_of_isSome content.toList).1 (by simp [hps])
    refine ⟨fragments, _, hfragments, rfl, ?_⟩
    rw [pieces?_of_composed hfragments] at hps
    obtain rfl := Option.some.inj hps
    rw [String.toList_ofList, List.flatMap_assoc, List.flatMap_def]
  · rintro ⟨fragments, shown, hfragments, rfl, htext⟩
    rw [render?, pieces?_of_composed hfragments, Option.map_some, List.flatMap_assoc,
      List.flatMap_def, ← htext, String.ofList_toList]

theorem render?_eq_none_iff {content : String} :
    render? store content = none ↔ ¬ ∃ fragments, Composed fragments content.toList := by
  rw [render?, Option.map_eq_none_iff, ← Option.not_isSome_iff_eq_none]
  refine not_congr ⟨(composed_of_isSome content.toList).1, ?_⟩
  rintro ⟨fragments, hfragments⟩
  rw [pieces?_of_composed hfragments, Option.isSome_some]

end

/-- A text shows, one after the other, what its fragments show. A text that does not consist of
fragments is refused, and two texts that are not show together what each of them shows. -/
theorem renders_fragments (store : Store) :
    (∀ content text, render? store content = some text ↔ ∃ fragments shown,
      Composed fragments content.toList ∧ List.Forall₂ (Fragment.Shows store) fragments shown ∧
      text.toList = shown.flatten) ∧
    (∀ content, (∃ text, render? store content = some text) ↔
      ∃ fragments, Composed fragments content.toList) ∧
    (∀ {D : Type} (p q : Player D) content e, p.showText content = .error (e, q) ↔
      e = .unbalancedBraces content ∧ q = p ∧ ¬ ∃ fragments, Composed fragments content.toList) ∧
    ∀ a b s t, render? store a = some s → render? store b = some t →
      render? store (a ++ b) = some (s ++ t) := by
  refine ⟨fun content text => render?_eq_some_iff, ?_, ?_, ?_⟩
  · intro content
    rw [← Option.isSome_iff_exists, ← not_iff_not, Option.not_isSome_iff_eq_none]
    exact render?_eq_none_iff
  · intro D p q content e
    have hnone : render? p.store content = none ↔ _ := render?_eq_none_iff
    rw [← hnone, Player.showText]
    cases render? p.store content with
    | none => simp [eq_comm]
    | some text => simp
  · intro a b s t ha hb
    obtain ⟨fragments, shown, hfragments, hshown, hs⟩ := render?_eq_some_iff.mp ha
    obtain ⟨more, others, hmore, hothers, ht⟩ := render?_eq_some_iff.mp hb
    refine render?_eq_some_iff.mpr ⟨fragments ++ more, shown ++ others, ?_, ?_, ?_⟩
    · rw [String.toList_append]
      exact hfragments.append hmore
    · exact List.rel_append hshown hothers
    · rw [String.toList_append, List.flatten_append, hs, ht]

/-- The braces of a value are shown, and the name between them is not looked up. -/
theorem renders_a_value_with_braces :
    render? ⟨[("name", .str "\x7bgold\x7d"), ("gold", .int 12)]⟩
        ("\x7bname\x7d has" ++ " \x7b gold \x7d gold\x7bleft\x7d") =
      some ("\x7bgold\x7d has" ++ " 12 gold") :=
  (renders_fragments _).2.2.2 _ _ _ _ (by decide +kernel) (by decide +kernel)

end Fabula.Template
