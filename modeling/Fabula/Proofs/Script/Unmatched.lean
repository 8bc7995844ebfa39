import Mathlib.Data.List.Nodup
import Fabula.Proofs.Script.Acceptance
import Fabula.Proofs.Script.Placed

/-!
# Brackets without a counterpart

A closer that ends no block and a block that is never closed are warned about, each once and at its
own line, and no other line is. A closer is warned about when it is read, among the other remarks
and in the order of the lines. The blocks that are still open at the end come after all of these,
in the order of their openers.
-/

namespace Fabula.Script

namespace Warning

def isStray : Warning → Bool
  | nothingToClose => true
  | _ => false

def isUnclosed : Warning → Bool
  | neverClosed _ => true
  | _ => false

end Warning

/-- How many warnings of a kind there are about a line. -/
def reported (p : Warning → Bool) (n : Nat) (ds : List Diagnostic) : Nat :=
  ds.countP fun d => d.line == n && p d.warning

section
variable {g g' mid : Gist} {raw : List Char} {raws before after : List (List Char)}
  {number n i : Nat} {ds : List Diagnostic} {p : Warning → Bool}

theorem reported_append (p : Warning → Bool) (n : Nat) (ds es : List Diagnostic) :
    reported p n (ds ++ es) = reported p n ds + reported p n es := List.countP_append

theorem reported_eq_zero (h : ∀ d ∈ ds, d.line = n → p d.warning = false) :
    reported p n ds = 0 := by
  rw [reported, List.countP_eq_zero]
  intro d hd hreported
  rw [Bool.and_eq_true, beq_iff_eq] at hreported
  rw [h d hd hreported.1] at hreported
  exact Bool.false_ne_true hreported.2

/-- None of the warnings is about a bracket. -/
def Aside (ws : List Warning) : Prop := ∀ w ∈ ws, w.isStray = false ∧ w.isUnclosed = false

theorem Aside.append {vs ws : List Warning} (hvs : Aside vs) (hws : Aside ws) :
    Aside (vs ++ ws) := by
  intro w hw
  rcases List.mem_append.mp hw with hw | hw
  · exact hvs w hw
  · exact hws w hw

theorem Aside.countP_stray {ws : List Warning} (h : Aside ws) :
    ws.countP Warning.isStray = 0 := by
  rw [List.countP_eq_zero]
  intro w hw
  rw [(h w hw).1]
  exact Bool.false_ne_true

theorem aside_nil : Aside [] := nofun

theorem aside_singleton {w : Warning} (hstray : w.isStray = false)
    (hunclosed : w.isUnclosed = false) : Aside [w] :=
  List.forall_mem_singleton.mpr ⟨hstray, hunclosed⟩

theorem aside_remarkContent (header : String) (content : List Char) :
    Aside (remarkContent header content) := by
  unfold remarkContent
  split
  · exact aside_nil
  · exact aside_singleton rfl rfl

theorem aside_remarkSay (characters : List String) (content : List Char) :
    Aside (remarkSay characters content) := by
  have hhost (host : List Char) : Aside (remarkHost host) := by
    unfold remarkHost
    split
    · split
      · exact aside_nil
      · exact aside_singleton rfl rfl
    · split
      · exact aside_singleton rfl rfl
      · exact aside_nil
  have hspeaker (name : List Char) : Aside (remarkSpeaker characters name) := by
    unfold remarkSpeaker
    split
    · exact aside_nil
    · exact aside_singleton rfl rfl
  unfold remarkSay
  split
  · exact aside_nil
  · exact (hhost _).append (hspeaker _)

/-- A line that is no closer is not remarked about as a bracket. -/
theorem Builtin.aside_remarks {b : Builtin} (h : b ≠ .close) (content : List Char) (g : Gist) :
    Aside (b.remarks content g) := by
  cases b with
  | close => exact absurd rfl h
  | menu | otherwise => exact aside_remarkContent _ content
  | say => exact aside_remarkSay g.characters content
  | char | menuItem | ifBlock | elif | jump => exact aside_nil

theorem Builtin.reading_eq_close_iff {b : Builtin} {content : List Char} :
    b.reading content = .ok (.line .close) ↔ b = .close := by
  constructor
  · intro h
    cases b with
    | close => rfl
    | char | menu | otherwise | jump => cases h
    | menuItem | ifBlock | elif =>
      simp only [Builtin.reading] at h
      split at h <;> cases h
    | say =>
      simp only [Builtin.reading, sayIn] at h
      split at h <;> cases h
  · rintro rfl
    rfl

theorem said_eq_close_iff :
    said raw = some .close ↔ ∃ content, assigned (Text.trim raw) = .ok (.close, content) := by
  rw [said_eq_some_iff, read_eq]
  cases assigned (Text.trim raw) with
  | error kind => simp [Except.bind]
  | ok parser =>
    obtain ⟨b, content⟩ := parser
    simp [Except.bind, Builtin.reading_eq_close_iff]

theorem aside_of_other (g : Gist) (h : said raw ≠ some .close) :
    Aside (g.remarks (Text.trim raw)) := by
  rw [ne_eq, said_eq_close_iff] at h
  unfold Gist.remarks
  cases hassigned : assigned (Text.trim raw) with
  | error kind => exact aside_nil
  | ok parser =>
    obtain ⟨b, content⟩ := parser
    refine Builtin.aside_remarks ?_ content g
    rintro rfl
    exact h ⟨content, hassigned⟩

theorem remarks_of_close (g : Gist) (h : said raw = some .close) :
    ∃ ws, Aside ws ∧ g.remarks (Text.trim raw) = ws ++ remarkClose g.sentences := by
  obtain ⟨content, hassigned⟩ := said_eq_close_iff.mp h
  refine ⟨remarkContent "/" content, aside_remarkContent "/" content, ?_⟩
  rw [Gist.remarks, hassigned]
  rfl

/-- There is nothing to close when every block is closed. -/
theorem remarkClose_eq (ss : List Sentence) :
    remarkClose ss = if AllClosed ss then [.nothingToClose] else [] := by
  have hnone : lastIndex? Sentence.isOpen ss = none ↔ AllClosed ss := lastIndex?_eq_none_iff
  unfold remarkClose
  cases hi : lastIndex? Sentence.isOpen ss with
  | none => rw [if_pos (hnone.mp hi)]
  | some i => rw [if_neg fun hclosed => by cases hi.symm.trans (hnone.mpr hclosed)]

theorem countP_stray_of_close (g : Gist) (h : said raw = some .close) :
    (g.remarks (Text.trim raw)).countP Warning.isStray =
      if AllClosed g.sentences then 1 else 0 := by
  obtain ⟨ws, haside, hremarks⟩ := remarks_of_close g h
  rw [hremarks, List.countP_append, haside.countP_stray, Nat.zero_add, remarkClose_eq]
  split <;> rfl

theorem not_unclosed_of_mem_remarks {w : Warning} (h : w ∈ g.remarks (Text.trim raw)) :
    w.isUnclosed = false := by
  by_cases hclose : said raw = some .close
  · obtain ⟨ws, haside, hremarks⟩ := remarks_of_close g hclose
    rw [hremarks, remarkClose_eq] at h
    rcases List.mem_append.mp h with h | h
    · exact (haside w h).2
    · split at h
      · rw [List.mem_singleton.mp h]
        rfl
      · cases h
  · exact (aside_of_other g hclose w h).2

namespace Gist

theorem exists_takeLines_append (h : g.takeLines number (before ++ after) = .ok g') :
    ∃ mid, g.takeLines number before = .ok mid ∧
      mid.takeLines (number + before.length) after = .ok g' := by
  induction before generalizing number g with
  | nil => exact ⟨g, rfl, h⟩
  | cons raw rest ih =>
    rw [List.cons_append, takeLines] at h
    rw [takeLines]
    cases hline : g.takeLine raw with
    | error kind => simp [hline] at h
    | ok taken =>
      rw [hline] at h
      have hnext : number + (raw :: rest).length = number + 1 + rest.length := by
        rw [List.length_cons]
        omega
      rw [hnext]
      exact ih h

theorem remarksAll_append (h : g.takeLines number before = .ok mid) (after : List (List Char)) :
    remarksAll number (before ++ after) g =
      remarksAll number before g ++ remarksAll (number + before.length) after mid := by
  induction before generalizing number g with
  | nil =>
    obtain rfl := Except.ok.inj h
    rfl
  | cons raw rest ih =>
    rw [takeLines] at h
    rw [List.cons_append, remarksAll, remarksAll]
    cases hline : g.takeLine raw with
    | error kind => simp [hline] at h
    | ok taken =>
      rw [hline] at h
      have hnext : number + (raw :: rest).length = number + 1 + rest.length := by
        rw [List.length_cons]
        omega
      rw [hnext]
      dsimp only
      rw [ih h, List.append_assoc]

/-- A remark is about one of the lines, and depends on the lines before it. -/
theorem exists_of_mem_remarksAll {d : Diagnostic} (h : d ∈ remarksAll number raws g) :
    ∃ before raw after mid, raws = before ++ raw :: after ∧ d.line = number + before.length ∧
      g.takeLines number before = .ok mid ∧ d.warning ∈ mid.remarks (Text.trim raw) := by
  induction raws generalizing number g with
  | nil => cases h
  | cons raw rest ih =>
    rw [remarksAll, List.mem_append] at h
    rcases h with h | h
    · obtain ⟨w, hw, rfl⟩ := List.mem_map.mp h
      exact ⟨[], raw, rest, g, rfl, rfl, rfl, hw⟩
    · cases hline : g.takeLine raw with
      | error kind => simp [hline] at h
      | ok taken =>
        rw [hline] at h
        obtain ⟨before, r, after, mid, rfl, hd, hmid, hw⟩ := ih h
        refine ⟨raw :: before, r, after, mid, rfl, ?_, ?_, hw⟩
        · rw [hd, List.length_cons]
          omega
        · rw [takeLines, hline]
          exact hmid

theorem bounds_of_mem_remarksAll {d : Diagnostic} (h : d ∈ remarksAll number raws g) :
    number ≤ d.line ∧ d.line < number + raws.length := by
  obtain ⟨before, raw, after, _, rfl, hd, _⟩ := exists_of_mem_remarksAll h
  rw [hd, List.length_append, List.length_cons]
  omega

theorem remarksAll_ordered (number : Nat) (raws : List (List Char)) (g : Gist) :
    (remarksAll number raws g).Pairwise fun d d' => d.line ≤ d'.line := by
  induction raws generalizing number g with
  | nil => exact .nil
  | cons raw rest ih =>
    have hhere : ((g.remarks (Text.trim raw)).map fun w => (⟨g.source, number, w⟩ : Diagnostic)).Pairwise
        fun d d' => d.line ≤ d'.line :=
      List.pairwise_map.mpr (List.pairwise_of_forall fun _ _ => Nat.le_refl number)
    rw [remarksAll, List.pairwise_append]
    refine ⟨hhere, ?_, ?_⟩
    · split
      · exact ih _ _
      · exact .nil
    · intro d hd d' hd'
      obtain ⟨w, _, rfl⟩ := List.mem_map.mp hd
      split at hd'
      · exact Nat.le_of_succ_le (bounds_of_mem_remarksAll hd').1
      · cases hd'

/-- What is remarked about a line is what is remarked after the lines before it. -/
theorem reported_remarksAll (h : g.takeLines number before = .ok mid) (raw : List Char)
    (after : List (List Char)) (p : Warning → Bool) :
    reported p (number + before.length) (remarksAll number (before ++ raw :: after) g) =
      (mid.remarks (Text.trim raw)).countP p := by
  have hbefore : reported p (number + before.length) (remarksAll number before g) = 0 := by
    refine reported_eq_zero fun d hd hline => ?_
    have hbounds := bounds_of_mem_remarksAll hd
    omega
  have hhere : reported p (number + before.length) ((mid.remarks (Text.trim raw)).map
      fun w => ⟨mid.source, number + before.length, w⟩) =
        (mid.remarks (Text.trim raw)).countP p := by
    rw [reported, List.countP_map]
    exact List.countP_congr fun w _ => by simp
  rw [remarksAll_append h, remarksAll, reported_append, reported_append, hbefore, hhere,
    Nat.zero_add]
  refine Nat.add_eq_left.mpr (reported_eq_zero fun d hd hline => ?_)
  split at hd
  · have hbounds := bounds_of_mem_remarksAll hd
    omega
  · cases hd

theorem grown_takeLines (h : Grown g.sentences) (htake : g.takeLines number raws = .ok g') :
    Grown g'.sentences :=
  takeLines_keeps (P := fun taken => Grown taken.sentences)
    (fun _ _ _ _ hgrown hline => grown_takeLine hgrown hline) h htake

end Gist

theorem reported_unclosed {entries : List Entry} {u : Entry} (source : String)
    (hlines : (entries.map Entry.line).Nodup) (hu : u ∈ entries) :
    reported Warning.isUnclosed u.line (unclosed source entries) =
      if u.sentence.isOpen then 1 else 0 := by
  have hcount : reported Warning.isUnclosed u.line (unclosed source entries) =
      entries.countP fun e => e.line == u.line && e.sentence.isOpen := by
    rw [reported, unclosed, List.countP_map, List.countP_filter]
    exact List.countP_congr fun e _ => by simp [Warning.isUnclosed]
  rw [hcount]
  split
  · rename_i hopen
    have hsame : entries.countP (fun e => e.line == u.line && e.sentence.isOpen) =
        entries.count u := by
      refine List.countP_congr fun e he => ?_
      rw [Bool.and_eq_true, beq_iff_eq, beq_iff_eq]
      constructor
      · rintro ⟨hline, _⟩
        exact List.inj_on_of_nodup_map hlines he hu hline
      · rintro rfl
        exact ⟨rfl, hopen⟩
    rw [hsame, List.count_eq_one_of_mem hlines.of_map hu]
  · rename_i hclosed
    rw [List.countP_eq_zero]
    intro e he hboth
    rw [Bool.and_eq_true, beq_iff_eq] at hboth
    obtain rfl := List.inj_on_of_nodup_map hlines he hu hboth.1
    exact hclosed hboth.2

/-- Nothing is open if and only if the stack of brackets is empty. -/
theorem Matched.allClosed_iff {ss : List Sentence} (h : Matched ss) :
    AllClosed ss ↔ blockStack (lines ss) = [] := by
  refine ⟨h.stack_of_allClosed, fun hstack s hs => ?_⟩
  rw [← Bool.not_eq_true]
  intro hopen
  obtain ⟨i, hi⟩ := List.mem_iff_getElem?.mp hs
  have hmem := h.openAt_iff.mp ⟨s, hi, hopen⟩
  rw [hstack] at hmem
  cases hmem

end

/-- A closer ends one block, or no block was open before it. -/
theorem Matched.existsUnique_or {ss : List Sentence} {e : Nat} (h : Matched ss)
    (he : ss[e]? = some .close) :
    (∃! i, exitAt ss i = some e) ∧ openBefore (lines ss) e ≠ [] ∨
      (¬ ∃ i, exitAt ss i = some e) ∧ openBefore (lines ss) e = [] := by
  have hline : (lines ss)[e]? = some .close := by
    rw [getElem?_lines, he]
    rfl
  cases hstack : openBefore (lines ss) e with
  | nil =>
    refine .inr ⟨?_, rfl⟩
    rintro ⟨i, hi⟩
    have hhead := ((h i e).mp hi).2
    rw [hstack] at hhead
    cases hhead
  | cons i rest =>
    have hcloses : Closes (lines ss) i e := ⟨hline, by rw [hstack]; rfl⟩
    refine .inl ⟨⟨i, (h i e).mpr hcloses, fun j hj => ?_⟩, List.cons_ne_nil i rest⟩
    exact ((h j e).mp hj).opener_unique hcloses

/-- The numbers are those of the lines on which the sentences are written. -/
structure Located (raws : List (List Char)) (places : List Nat) (ss : List Sentence) : Prop where
  length : places.length = ss.length
  increasing : places.Pairwise (· < ·)
  written : ∀ (i n : Nat) (s : Sentence), places[i]? = some n → ss[i]? = some s →
    ∃ before raw after, raws = before ++ raw :: after ∧ n = 1 + before.length ∧
      said raw = some s.line

/-- Every bracket has its counterpart or its warning. -/
structure Accounted (places : List Nat) (script : Script) : Prop where
  closers : ∀ e n : Nat, script.sentences[e]? = some .close → places[e]? = some n →
    (∃! i, exitAt script.sentences i = some e) ∧
        reported Warning.isStray n script.warnings = 0 ∨
      (¬ ∃ i, exitAt script.sentences i = some e) ∧
        reported Warning.isStray n script.warnings = 1
  openers : ∀ (i n : Nat) (s : Sentence), script.sentences[i]? = some s →
    s.line.isOpener = true → places[i]? = some n →
    (∃ e, exitAt script.sentences i = some e) ∧
        reported Warning.isUnclosed n script.warnings = 0 ∨
      exitAt script.sentences i = none ∧ reported Warning.isUnclosed n script.warnings = 1
  only_closers : ∀ d ∈ script.warnings, d.warning.isStray = true →
    ∃ e : Nat, script.sentences[e]? = some Sentence.close ∧ places[e]? = some d.line
  only_openers : ∀ d ∈ script.warnings, d.warning.isUnclosed = true →
    ∃ (i : Nat) (s : Sentence), script.sentences[i]? = some s ∧ s.line.isOpener = true ∧
      places[i]? = some d.line ∧ d.warning = .neverClosed s.write
  ordered : ∃ earlier, script.warnings = earlier ++
      unclosed script.name (List.zipWith Entry.mk places script.sentences) ∧
    (∀ d ∈ earlier, d.warning.isUnclosed = false) ∧
    earlier.Pairwise fun d d' => d.line ≤ d'.line

section
variable {name text : String} {raws : List (List Char)} {g : Gist} {e i n : Nat} {s : Sentence}

/-- The gist is what the lines make of no sentences. -/
def Taken (name : String) (raws : List (List Char)) (g : Gist) : Prop :=
  Gist.takeLines 1 raws ⟨name, [], [], []⟩ = .ok g

theorem exists_taken_of_compile {script : Script}
    (h : Compiler.standard.compile name text = .ok script) : ∃ g,
      Taken name (Text.lines text.toList) g ∧ script = g.script (Text.lines text.toList) := by
  rw [Compiler.compile_eq] at h
  cases htake : Gist.takeLines 1 (Text.lines text.toList) ⟨name, [], [], []⟩ with
  | error e => simp [htake, Except.map] at h
  | ok g =>
    rw [htake] at h
    exact ⟨g, htake, (Except.ok.inj h).symm⟩

namespace Taken

theorem source (h : Taken name raws g) : g.source = name := Gist.takeLines_source h

theorem lines_eq (h : Taken name raws g) : lines g.sentences = (placed 1 raws).map Prod.snd :=
  Gist.lines_takeLines h

theorem matched (h : Taken name raws g) : Matched g.sentences :=
  (Gist.grown_takeLines grown_nil h).matched

theorem length_places (h : Taken name raws g) : (places 1 raws).length = g.sentences.length := by
  rw [← length_lines, h.lines_eq, places, List.length_map, List.length_map]

theorem placed_of_place (h : Taken name raws g) (hs : g.sentences[i]? = some s)
    (hn : (places 1 raws)[i]? = some n) : (placed 1 raws)[i]? = some (n, s.line) := by
  have hline : ((placed 1 raws).map Prod.snd)[i]? = some s.line := by
    rw [← h.lines_eq, getElem?_lines, hs]
    rfl
  rw [places, List.getElem?_map] at hn
  rw [List.getElem?_map] at hline
  obtain ⟨entry, hentry, rfl⟩ := Option.map_eq_some_iff.mp hn
  rw [hentry] at hline ⊢
  exact congrArg some (Prod.ext rfl (Option.some.inj hline))

theorem place_of_placed (h : Taken name raws g) {l : Line}
    (hl : (placed 1 raws)[i]? = some (n, l)) :
    (lines g.sentences)[i]? = some l ∧ (places 1 raws)[i]? = some n := by
  rw [h.lines_eq, places, List.getElem?_map, List.getElem?_map, hl]
  exact ⟨rfl, rfl⟩

theorem located (h : Taken name raws g) : Located raws (places 1 raws) g.sentences where
  length := h.length_places
  increasing := places_increasing 1 raws
  written i n s hn hs := by
    obtain ⟨before, raw, after, hraws, hplace, hsaid, _⟩ :=
      exists_of_placed (h.placed_of_place hs hn)
    exact ⟨before, raw, after, hraws, hplace, hsaid⟩

/-- A closer is remarked about when no block is open before it. -/
theorem reported_stray (h : Taken name raws g) (hs : g.sentences[e]? = some .close)
    (hn : (places 1 raws)[e]? = some n) :
    reported Warning.isStray n (Gist.remarksAll 1 raws ⟨name, [], [], []⟩) =
      if openBefore (lines g.sentences) e = [] then 1 else 0 := by
  obtain ⟨before, raw, after, rfl, rfl, hsaid, hlength⟩ :=
    exists_of_placed (h.placed_of_place hs hn)
  obtain ⟨mid, hmid, _⟩ := Gist.exists_takeLines_append h
  have hbefore : Taken name before mid := hmid
  have hstack : openBefore (lines g.sentences) e = blockStack (lines mid.sentences) := by
    rw [openBefore, h.lines_eq, hbefore.lines_eq, placed_append, List.map_append,
      List.take_left' (by rw [List.length_map, hlength])]
  rw [Gist.reported_remarksAll hmid, countP_stray_of_close mid hsaid, hstack]
  simp only [hbefore.matched.allClosed_iff]

theorem closer_of_remarked (h : Taken name raws g) {d : Diagnostic}
    (hd : d ∈ Gist.remarksAll 1 raws ⟨name, [], [], []⟩) (hstray : d.warning.isStray = true) :
    ∃ e : Nat, g.sentences[e]? = some Sentence.close ∧ (places 1 raws)[e]? = some d.line := by
  obtain ⟨before, raw, after, mid, rfl, hline, _, hw⟩ := Gist.exists_of_mem_remarksAll hd
  have hclose : said raw = some .close := by
    by_contra hother
    rw [(aside_of_other mid hother d.warning hw).1] at hstray
    exact Bool.false_ne_true hstray
  have hplaced : (placed 1 (before ++ raw :: after))[(placed 1 before).length]? =
      some (d.line, .close) := by
    rw [placed_append, placed, hclose, hline]
    simp
  obtain ⟨hsentence, hplace⟩ := h.place_of_placed hplaced
  exact ⟨_, sentence_of_line_close hsentence, hplace⟩

theorem map_line_entries (h : Taken name raws g) :
    (List.zipWith Entry.mk (places 1 raws) g.sentences).map Entry.line = places 1 raws := by
  calc (List.zipWith Entry.mk (places 1 raws) g.sentences).map Entry.line
      = ((places 1 raws).zip g.sentences).map Prod.fst := by
        rw [List.zip, List.map_zipWith, List.map_zipWith]
    _ = places 1 raws := List.map_fst_zip h.length_places.le

theorem reported_opener (h : Taken name raws g) (hs : g.sentences[i]? = some s)
    (hn : (places 1 raws)[i]? = some n) :
    reported Warning.isUnclosed n
        (unclosed name (List.zipWith Entry.mk (places 1 raws) g.sentences)) =
      if s.isOpen then 1 else 0 := by
  have hentry : (List.zipWith Entry.mk (places 1 raws) g.sentences)[i]? = some ⟨n, s⟩ := by
    rw [List.getElem?_zipWith, hn, hs]
  have hnodup : ((List.zipWith Entry.mk (places 1 raws) g.sentences).map Entry.line).Nodup := by
    rw [h.map_line_entries]
    exact (places_increasing 1 raws).imp fun hlt => Nat.ne_of_lt hlt
  exact reported_unclosed name hnodup (List.mem_of_getElem? hentry)

theorem opener_of_unclosed {d : Diagnostic}
    (hd : d ∈ unclosed name (List.zipWith Entry.mk (places 1 raws) g.sentences)) :
    ∃ (i : Nat) (s : Sentence), g.sentences[i]? = some s ∧ s.line.isOpener = true ∧
      (places 1 raws)[i]? = some d.line ∧ d.warning = .neverClosed s.write := by
  obtain ⟨u, hu, rfl⟩ := List.mem_map.mp hd
  obtain ⟨hmem, hopen⟩ := List.mem_filter.mp hu
  obtain ⟨i, hi⟩ := List.mem_iff_getElem?.mp hmem
  obtain ⟨n, s, hn, hs, rfl⟩ := List.getElem?_zipWith_eq_some.mp hi
  exact ⟨i, s, hs, (s.isOpen_iff.mp hopen).1, hn, rfl⟩

/-- While the lines are read no block is reported as never closed, and afterwards nothing else. -/
theorem reported_warnings (h : Taken name raws g) (n : Nat) :
    reported Warning.isStray n (g.script raws).warnings =
        reported Warning.isStray n (Gist.remarksAll 1 raws ⟨name, [], [], []⟩) ∧
      reported Warning.isUnclosed n (g.script raws).warnings =
        reported Warning.isUnclosed n
          (unclosed name (List.zipWith Entry.mk (places 1 raws) g.sentences)) := by
  have hlate : reported Warning.isStray n
      (unclosed name (List.zipWith Entry.mk (places 1 raws) g.sentences)) = 0 := by
    refine reported_eq_zero fun d hd _ => ?_
    obtain ⟨_, _, _, _, _, hwarning⟩ := opener_of_unclosed hd
    rw [hwarning]
    rfl
  have hearly : reported Warning.isUnclosed n
      (Gist.remarksAll 1 raws ⟨name, [], [], []⟩) = 0 := by
    refine reported_eq_zero fun d hd _ => ?_
    obtain ⟨_, _, _, _, _, _, _, hw⟩ := Gist.exists_of_mem_remarksAll hd
    exact not_unclosed_of_mem_remarks hw
  rw [Gist.script, h.source, reported_append, reported_append, hlate, hearly, Nat.add_zero,
    Nat.zero_add]
  exact ⟨rfl, rfl⟩

theorem accounted (h : Taken name raws g) : Accounted (places 1 raws) (g.script raws) where
  closers e n hs hn := by
    rw [(h.reported_warnings n).1, h.reported_stray hs hn]
    rcases h.matched.existsUnique_or hs with ⟨hunique, hstack⟩ | ⟨hnone, hstack⟩
    · exact .inl ⟨hunique, if_neg hstack⟩
    · exact .inr ⟨hnone, if_pos hstack⟩
  openers i n s hs hopener hn := by
    have hexit : exitAt (g.script raws).sentences i = s.exit? := by
      rw [exitAt, hs]
      rfl
    have hopen := s.isOpen_iff
    rw [(h.reported_warnings n).2, h.reported_opener hs hn, hexit]
    cases hs' : s.exit? with
    | none => exact .inr ⟨rfl, if_pos (hopen.mpr ⟨hopener, hs'⟩)⟩
    | some e =>
      refine .inl ⟨⟨e, rfl⟩, if_neg fun h => ?_⟩
      rw [(hopen.mp h).2] at hs'
      cases hs'
  only_closers d hd hstray := by
    rw [Gist.script, h.source] at hd
    rcases List.mem_append.mp hd with hd | hd
    · exact h.closer_of_remarked hd hstray
    · obtain ⟨_, _, _, _, _, hwarning⟩ := opener_of_unclosed hd
      rw [hwarning] at hstray
      cases hstray
  only_openers d hd hunclosed := by
    rw [Gist.script, h.source] at hd
    rcases List.mem_append.mp hd with hd | hd
    · obtain ⟨_, _, _, _, _, _, _, hw⟩ := Gist.exists_of_mem_remarksAll hd
      rw [not_unclosed_of_mem_remarks hw] at hunclosed
      cases hunclosed
    · exact opener_of_unclosed hd
  ordered := by
    refine ⟨Gist.remarksAll 1 raws ⟨g.source, [], [], []⟩, rfl, fun d hd => ?_,
      Gist.remarksAll_ordered 1 raws _⟩
    obtain ⟨_, _, _, _, _, _, _, hw⟩ := Gist.exists_of_mem_remarksAll hd
    exact not_unclosed_of_mem_remarks hw

end Taken

end

/-- In a compiled text every closer and every opener has its counterpart, or one warning at its
own line. -/
theorem brackets_accounted_for {name text : String} {script : Script}
    (h : Compiler.standard.compile name text = .ok script) :
    Located (Text.lines text.toList) (places 1 (Text.lines text.toList)) script.sentences ∧
      Accounted (places 1 (Text.lines text.toList)) script := by
  obtain ⟨g, htaken, rfl⟩ := exists_taken_of_compile h
  exact ⟨htaken.located, htaken.accounted⟩

/-- A closer on the first line and a menu that stays open on the third, after a blank line. -/
theorem accounted_around_blank_line : ∃ script,
    Compiler.standard.compile "t" "/

[Menu]
- a
: in" = .ok script ∧
      Accounted [1, 3, 4, 5] script ∧ reported Warning.isStray 1 script.warnings = 1 ∧
      reported Warning.isUnclosed 3 script.warnings = 1 := by
  have h : Compiler.standard.compile "t" "/

[Menu]
- a
: in" = .ok
      ⟨"t", [.close, .menu ⟨[⟨"a", 3⟩], none⟩, .option "a" 1, .say ⟨"", "", "in"⟩], [], [],
        [⟨"t", 1, .nothingToClose⟩, ⟨"t", 3, .neverClosed "[Menu]"⟩]⟩ := by rfl
  have hplaces : places 1 (Text.lines "/

[Menu]
- a
: in".toList) = [1, 3, 4, 5] := by rfl
  obtain ⟨_, haccounted⟩ := brackets_accounted_for h
  rw [hplaces] at haccounted
  exact ⟨_, h, haccounted, rfl, rfl⟩

end Fabula.Script
