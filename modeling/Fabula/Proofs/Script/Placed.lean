import Fabula.Proofs.Script.Remarks

/-!
# Where sentences stand

A draft keeps the number of the line that each of its sentences was written on. The lines of the
text decide these numbers by themselves: each line says one sentence or none. So a compiled script
is what its readings make of no sentences, with the remarks about its lines, and after these the
warnings about blocks that are never closed, at the places of their openers.
-/

namespace Fabula.Script

def Reading.line? : Reading → Option Line
  | .line l => some l
  | _ => none

/-- The sentence that a line of a text says, if it says one. -/
def said (raw : List Char) : Option Line :=
  match read (Text.trim raw) with
  | .ok r => r.line?
  | .error _ => none

/-- What lines say, each sentence under the number of its line. The first line has the given
number. -/
def placed : Nat → List (List Char) → List (Nat × Line)
  | _, [] => []
  | number, raw :: rest => ((said raw).map (number, ·)).toList ++ placed (number + 1) rest

/-- The numbers of the lines that say a sentence. -/
def places (number : Nat) (raws : List (List Char)) : List Nat := (placed number raws).map Prod.fst

section
variable {g g' : Gist} {raw : List Char} {raws before after : List (List Char)} {number n i : Nat}
  {l : Line}

theorem said_of_read {r : Reading} (h : read (Text.trim raw) = .ok r) : said raw = r.line? := by
  rw [said, h]

theorem said_eq_some_iff : said raw = some l ↔ read (Text.trim raw) = .ok (.line l) := by
  unfold said
  cases read (Text.trim raw) with
  | error kind => simp
  | ok r => cases r <;> simp [Reading.line?]

theorem said_of_blank (h : Text.trim raw = []) : said raw = none := by
  rw [said, h]
  rfl

theorem placed_append (before after : List (List Char)) (number : Nat) :
    placed number (before ++ after) =
      placed number before ++ placed (number + before.length) after := by
  induction before generalizing number with
  | nil => rfl
  | cons raw rest ih =>
    have hnext : number + (rest.length + 1) = number + 1 + rest.length := by omega
    rw [List.cons_append, placed, placed, ih, List.append_assoc, List.length_cons, hnext]

/-- A sentence is written on one of the lines, after the sentences of the lines before it. -/
theorem exists_of_placed (h : (placed number raws)[i]? = some (n, l)) :
    ∃ before raw after, raws = before ++ raw :: after ∧ n = number + before.length ∧
      said raw = some l ∧ (placed number before).length = i := by
  induction raws generalizing number i with
  | nil => simp [placed] at h
  | cons raw rest ih =>
    rw [placed] at h
    have later : ∀ {j}, (placed (number + 1) rest)[j]? = some (n, l) →
        i = ((said raw).map (number, ·)).toList.length + j →
        ∃ before r after, raw :: rest = before ++ r :: after ∧ n = number + before.length ∧
          said r = some l ∧ (placed number before).length = i := by
      intro j hj hi
      obtain ⟨before, r, after, rfl, rfl, hsaid, hlength⟩ := ih hj
      refine ⟨raw :: before, r, after, rfl, ?_, hsaid, ?_⟩
      · rw [List.length_cons]
        omega
      · rw [placed, List.length_append, hlength, hi]
    cases hraw : said raw with
    | none =>
      rw [hraw] at h
      exact later h (by simp [hraw])
    | some k =>
      rw [hraw] at h
      cases i with
      | zero =>
        obtain ⟨rfl, rfl⟩ := Prod.mk.inj (Option.some.inj h)
        exact ⟨[], raw, rest, rfl, rfl, hraw, rfl⟩
      | succ i => exact later h (by simp [hraw, Nat.add_comm])

theorem le_of_mem_places (h : n ∈ places number raws) : number ≤ n := by
  obtain ⟨⟨m, l⟩, hmem, rfl⟩ := List.mem_map.mp h
  obtain ⟨i, hi⟩ := List.mem_iff_getElem?.mp hmem
  obtain ⟨before, _, _, _, hn, _⟩ := exists_of_placed hi
  exact hn ▸ Nat.le_add_right number before.length

theorem places_increasing (number : Nat) (raws : List (List Char)) :
    (places number raws).Pairwise (· < ·) := by
  induction raws generalizing number with
  | nil => exact .nil
  | cons raw rest ih =>
    rw [places, placed, List.map_append]
    cases said raw with
    | none => exact ih (number + 1)
    | some l => exact List.pairwise_cons.mpr ⟨fun n hn => le_of_mem_places hn, ih (number + 1)⟩

namespace Gist

theorem lines_take {r : Reading} (h : g.take r = .ok g') :
    lines g'.sentences = lines g.sentences ++ r.line?.toList := by
  cases r with
  | nothing | characters names =>
    obtain rfl := Except.ok.inj h
    exact (List.append_nil _).symm
  | line l =>
    simp only [take] at h
    cases hgrow : grow g.sentences l with
    | none => simp [hgrow] at h
    | some ss =>
      rw [hgrow] at h
      obtain rfl := Except.ok.inj h
      exact lines_grow hgrow

theorem lines_takeLine (h : g.takeLine raw = .ok g') :
    lines g'.sentences = lines g.sentences ++ (said raw).toList := by
  obtain ⟨r, hread, htake⟩ := takeLine_eq_ok h
  rw [said_of_read hread, lines_take htake]

theorem lines_takeLines (h : g.takeLines number raws = .ok g') :
    lines g'.sentences = lines g.sentences ++ (placed number raws).map Prod.snd := by
  induction raws generalizing number g with
  | nil =>
    obtain rfl := Except.ok.inj h
    exact (List.append_nil _).symm
  | cons raw rest ih =>
    simp only [takeLines] at h
    cases hline : g.takeLine raw with
    | error kind => simp [hline] at h
    | ok taken =>
      rw [hline] at h
      rw [ih h, lines_takeLine hline, placed, List.map_append, List.append_assoc]
      cases said raw <;> rfl

theorem takeLine_source (h : g.takeLine raw = .ok g') : g'.source = g.source := by
  obtain ⟨_, _, htake⟩ := takeLine_eq_ok h
  exact take_source htake

theorem takeLines_source (h : g.takeLines number raws = .ok g') : g'.source = g.source :=
  takeLines_keeps (P := fun taken => taken.source = g.source)
    (fun _ _ _ _ hsource hline => (takeLine_source hline).trans hsource) rfl h

end Gist

end

def Draft.places (d : Draft) : List Nat := d.entries.map Entry.line

theorem Draft.entries_eq (d : Draft) : d.entries = List.zipWith Entry.mk d.places d.sentences := by
  rw [Draft.places, Draft.sentences, List.zipWith_map, List.zipWith_self]
  exact (List.map_id' _).symm

/-- Edits put sentences on the line of the draft, and no sentence changes its place. -/
theorem Edits.places {d e : Draft} {ws : List Warning} (h : Edits d ws e) :
    ∃ k, e.places = d.places ++ List.replicate k d.line := by
  induction h with
  | refl => exact ⟨0, (List.append_nil _).symm⟩
  | warn _ _ ih | character _ _ ih | jump _ _ ih => exact ih
  | @push ws e s h ih =>
    obtain ⟨k, hk⟩ := ih
    have hplaces : (e.push s).places = e.places ++ [e.line] := List.map_append
    exact ⟨k + 1, by rw [hplaces, hk, h.noted.line, List.append_assoc, List.replicate_succ']⟩
  | @update ws e i change _ ih =>
    obtain ⟨k, hk⟩ := ih
    have hkept (u : Entry) : Entry.line { u with sentence := change u.sentence } = u.line := rfl
    have hplaces : (e.update i change).places = e.places := map_modify_of_comp_eq hkept i
    exact ⟨k, by rw [hplaces, hk]⟩

section
variable {d e : Draft}

/-- A line that says a sentence gives it its number. -/
theorem places_readLine {raw : List Char} {number : Nat} (hraw : Text.trim raw ≠ [])
    (h : Compiler.standard.readLine (Text.trim raw) { d with line := number } = .ok e) :
    e.places = d.places ++ ((said raw).map (number, ·)).toList.map Prod.fst := by
  obtain ⟨k, hk⟩ := (edits_readLine hraw h).places
  have hplaces : e.places = d.places ++ List.replicate k number := hk
  have hgist := Compiler.gist_readLine hraw { d with line := number }
  rw [h] at hgist
  have htaken : d.gist.takeLine raw = .ok e.gist := hgist.symm
  have hlines := congrArg List.length (Gist.lines_takeLine htaken)
  have hlength := congrArg List.length hplaces
  simp only [Draft.places, Draft.gist_sentences, Draft.sentences, length_lines, List.length_append,
    List.length_map, List.length_replicate] at hlines hlength
  have hk : k = (said raw).toList.length := by omega
  rw [hplaces, hk]
  cases said raw <;> rfl

theorem places_readLines {raws : List (List Char)} {number : Nat}
    (h : Compiler.standard.readLines number raws d = .ok e) :
    e.places = d.places ++ places number raws := by
  induction raws generalizing number d with
  | nil =>
    obtain rfl := Except.ok.inj h
    exact (List.append_nil _).symm
  | cons raw rest ih =>
    simp only [Compiler.readLines] at h
    by_cases hblank : Text.trim raw = []
    · rw [if_pos hblank] at h
      rw [ih h, places, places, placed, said_of_blank hblank]
      rfl
    · rw [if_neg hblank] at h
      cases hline : Compiler.standard.readLine (Text.trim raw) { d with line := number } with
      | error kind => simp [hline] at h
      | ok f =>
        rw [hline] at h
        rw [ih h, places_readLine hblank hline, places, places, placed, List.map_append,
          List.append_assoc]

end

/-- The script of a text that is read as the gist. -/
def Gist.script (g : Gist) (raws : List (List Char)) : Script where
  name := g.source
  sentences := g.sentences
  characters := g.characters
  jumps := g.jumps
  warnings := Gist.remarksAll 1 raws ⟨g.source, [], [], []⟩ ++
    unclosed g.source (List.zipWith Entry.mk (places 1 raws) g.sentences)

theorem eq_of_gist {s t : Script} (hgist : s.gist = t.gist) (hwarnings : s.warnings = t.warnings) :
    s = t := by
  obtain ⟨_, _, _, _, _⟩ := s
  obtain ⟨_, _, _, _, _⟩ := t
  simp_all [Script.gist]

/-- A script is compiled from what its lines say, what is remarked about them and where they
stand. -/
theorem Compiler.compile_eq (name text : String) : standard.compile name text =
    (Gist.takeLines 1 (Text.lines text.toList) ⟨name, [], [], []⟩).map fun g =>
      g.script (Text.lines text.toList) := by
  have hlines := gist_readLines (Text.lines text.toList) 1 (Draft.empty name)
  have hempty : (Draft.empty name).gist = ⟨name, [], [], []⟩ := rfl
  rw [hempty] at hlines
  rw [← hlines, compile]
  cases hread : standard.readLines 1 (Text.lines text.toList) (Draft.empty name) with
  | error e => rfl
  | ok d =>
    rw [hread] at hlines
    have hsource : d.source = name := Gist.takeLines_source hlines.symm
    have hplaces := places_readLines hread
    have hwarnings := warnings_readLines hread
    have hentries : d.entries =
        List.zipWith Entry.mk (places 1 (Text.lines text.toList)) d.sentences := by
      rw [d.entries_eq, hplaces]
      rfl
    have hall := finish_warnings d
    rw [hwarnings, hentries, hempty] at hall
    subst hsource
    exact congrArg Except.ok (eq_of_gist (gist_finish d) hall)

end Fabula.Script
