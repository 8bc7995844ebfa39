import Fabula.Proofs.Player.Heading

/-!
# Overtaking

A misplaced marker does not end the part before it: a player that comes there goes on into the
next part. So, of a script whose conditions can be had with any truth, all sessions keep to one
part of each block exactly when the markers stand directly in their blocks. All can keep to one
body with a marker misplaced only when the part before it is a lead.
-/

namespace Fabula

namespace Player

open Script (Sentence Grown AllClosed OnePart Exclusive InPart InBody InLead MarkerOf Misplaced
  WellNested lines openBefore lt_and_opensAt_of_mem mem_openBefore_iff)

section Past
variable {script : Script} {p : Player SingleScript} {j turns : Nat} {seen : List Nat}
variable (hg : Grown script.sentences) (hturns : script.size < turns)
include hg hturns

/-- Directly in the block at `k`, the markers of another block do not stop a player: it executes
a sentence between here and the end of `k` that is none of them. -/
theorem passes_markers {own k f : Nat} (hne : k ≠ own)
    (hk : Script.exitAt script.sentences k = some f) (hscript : p.script = some script)
    (hrunning : p.status = .running) (hhead : p.scopes.head? = some k) (hpf : p.index ≤ f) :
    ∃ b, b ∈ visits turns p [] ∧ p.index ≤ b ∧ b ≤ f ∧
      ¬ MarkerOf script.sentences own b := by
  have hclose : script.sentences[f]? = some .close :=
    (hg.matched.bracketed.exit_is_close k f hk).2.2
  have hf : ¬ MarkerOf script.sentences own f := by
    rintro ⟨s, hs, ho⟩
    obtain rfl := Option.some.inj (hclose.symm.trans hs)
    simp [Sentence.owner?] at ho
  have hexecutes : ∀ r : Player SingleScript, r.status = .running → ∀ i, r.executing? = some i →
      i ∈ visits turns r [] := by
    intro r hr i hi
    cases turns with
    | zero => omega
    | succ turns => simp [visits, runVisits, hr, hi]
  -- induction on what is left of the block at `k`
  induction hn : f - p.index generalizing p with
  | zero =>
    obtain rfl : p.index = f := by omega
    exact ⟨p.index, hexecutes p hrunning _ (executing?_of_plain hscript hclose rfl),
      Nat.le_refl _, hpf, hf⟩
  | succ n ih =>
    have hlt : f < script.sentences.length := (List.getElem?_eq_some_iff.mp hclose).1
    obtain ⟨s, hs⟩ : ∃ s, script.sentences[p.index]? = some s :=
      ⟨_, List.getElem?_eq_getElem (by omega)⟩
    have hplace := executing?_eq (s := s) hscript hs
    by_cases ho : s.owner? = some own
    · have hr : p.redirect? script s = none :=
        redirect?_of_not_head ho fun hown => hne (Option.some.inj (hhead.symm.trans hown))
      have hturn := turn_marker hscript hs ho hr
      obtain ⟨b, hb, hpb, hbf, hnot⟩ := ih (p := { p with index := p.index + 1, moved := true })
        hscript hrunning hhead (by show p.index + 1 ≤ f; omega)
        (by show f - (p.index + 1) = n; omega)
      refine ⟨b, ?_, Nat.le_of_succ_le hpb, hbf, hnot⟩
      rw [visits_of_turn hg hturns hscript hrunning hturn]
      exact List.mem_append_right _ hb
    · cases hr : p.redirect? script s with
      | none =>
        rw [hr, if_pos rfl] at hplace
        refine ⟨p.index, hexecutes p hrunning _ hplace, Nat.le_refl _, hpf, ?_⟩
        rintro ⟨t, ht, hto⟩
        obtain rfl := Option.some.inj (hs.symm.trans ht)
        exact ho hto
      | some target =>
        obtain ⟨i, hi, _, hexit⟩ := redirect?_exit hr
        obtain rfl := Option.some.inj (hhead.symm.trans hi)
        obtain rfl := Option.some.inj (hk.symm.trans hexit)
        refine ⟨f, ?_, hpf, Nat.le_refl f, hf⟩
        rw [visits_of_turn hg hturns hscript hrunning (turn_of_redirect hscript hs hr)]
        have hthere : executing? { p with index := f } = some f :=
          executing?_of_plain (by exact hscript) hclose rfl
        exact List.mem_append_right _ (hexecutes { p with index := f } hrunning f hthere)

end Past

/-- Of the block at `own`, what stands at `k` and a later part have been executed, with the marker
at `j` between them. -/
structure Overtaken (ss : List Sentence) (seen : List Nat) (own k j e b : Nat) : Prop where
  exit : Script.exitAt ss own = some e
  entered : own ∈ seen
  before_mem : k ∈ seen
  after_mem : b ∈ seen
  before : InPart ss own e k
  after : InPart ss own e b
  marker : MarkerOf ss own j
  between : k < j ∧ j < b

section Overtaken
variable {ss : List Sentence} {seen : List Nat} {own k j e b : Nat}

theorem Overtaken.not_onePart (h : Overtaken ss seen own k j e b) : ¬ OnePart ss seen :=
  fun hone => hone.one_part own e k b j h.exit h.entered h.before_mem h.after_mem h.before h.after
    h.marker h.between

/-- Only a lead may be overtaken. -/
theorem Overtaken.inLead (h : Overtaken ss seen own k j e b) (hone : Exclusive ss seen) :
    InLead ss own k := by
  by_contra hlead
  have hafter : InBody ss own e b :=
    ⟨h.after, fun hb => by have := hb.before_options j h.marker; have := h.between; omega⟩
  exact hone.one_body own e k b j h.exit h.entered h.before_mem h.after_mem ⟨h.before, hlead⟩
    hafter h.marker h.between

end Overtaken

theorem exists_overtaken {script : Script} (hg : Grown script.sentences)
    (hclosed : AllClosed script.sentences) (hfree : Script.Free script) {own k j : Nat}
    (hm : Misplaced script.sentences own k j) :
    ∃ (p : Player SingleScript) (turns : Nat) (rs : List Request) (e b : Nat),
      Overtaken script.sentences (visits turns (p.started script false) rs) own k j e b := by
  have hkmem : k ∈ openBefore (lines script.sentences) j := List.mem_of_mem_head? hm.inner
  have hownmem := Script.mem_openBefore_of_marker hg hm.marker
  obtain ⟨hownk, hkj⟩ := hm.owner_lt hg
  obtain ⟨l, hl, hopener⟩ := (lt_and_opensAt_of_mem hkmem).2
  rw [Script.getElem?_lines] at hl
  obtain ⟨t, ht, rfl⟩ := Option.map_eq_some_iff.mp hl
  obtain ⟨s, hs, ho⟩ := id hm.marker
  obtain ⟨e, he⟩ := Script.exit_of_owner hg hclosed hs ho
  obtain ⟨f, hf⟩ := Script.exit_of_closed hclosed ht hopener
  have hjf : j ≤ f := (mem_openBefore_iff.mp hkmem).2.2 f ((hg.matched k f).mp hf)
  have hje : j < e := (hg.attached.owned j s own hs ho).2.2 e he
  have hfe : f < e := by
    have := hg.matched.bracketed.nested_or_disjoint own k e f hownk he hf
    omega
  obtain ⟨p, q, requests, later, hqj, hq, hvisits⟩ := exists_arrival hg hclosed hfree
    (List.getElem?_eq_some_iff.mp hs).1 (Nat.lt_succ_self script.size)
  obtain ⟨hscript, hscopes⟩ := hq.inStep.running hq.running
  have haround := hq.around
  rw [hqj] at hscopes haround
  obtain ⟨b, hb, hjb, hbf, hnot⟩ := passes_markers hg (Nat.lt_succ_self script.size) hm.other hf
    hscript hq.running (hscopes ▸ hm.inner) (hqj ▸ hjf)
  have hbj : b ≠ j := by
    rintro rfl
    exact hnot hm.marker
  have hknot : ¬ MarkerOf script.sentences own k := by
    rintro ⟨u, hu, huo⟩
    obtain rfl := Option.some.inj (ht.symm.trans hu)
    simp [(Script.marker_plain huo).1] at hopener
  refine ⟨p, script.size + 1, requests ++ [], e, b, ?_⟩
  rw [hvisits]
  exact
    { exit := he
      entered := List.mem_append_left _ (haround own hownmem)
      before_mem := List.mem_append_left _ (haround k hkmem)
      after_mem := List.mem_append_right _ hb
      before := ⟨hownk, by omega, hknot⟩
      after := ⟨by omega, by omega, hnot⟩
      marker := hm.marker
      between := ⟨hkj, by omega⟩ }

/-- Of a script whose blocks are closed, every session keeps to one body of each block if the
script is well nested. When the conditions can be had with any truth, then only if the misplaced
markers are options inside what opens in the lead of their menu; and every session keeps to one
part of each block, leads among them, exactly if the script is well nested. -/
theorem exclusive_of_wellNested_and_only_then {source text : String} {script : Script}
    (h : Script.Compiler.standard.compile source text = .ok script)
    (hclosed : AllClosed script.sentences) :
    (WellNested (lines script.sentences) →
      ∀ (p : Player SingleScript) turns callback requests,
        Exclusive script.sentences (visits turns (p.started script callback) requests)) ∧
    (Script.Free script →
      (∀ (p : Player SingleScript) turns callback requests,
        Exclusive script.sentences (visits turns (p.started script callback) requests)) →
      ∀ own k j, Misplaced script.sentences own k j → InLead script.sentences own k) ∧
    (Script.Free script →
      ((∀ (p : Player SingleScript) turns callback requests,
        OnePart script.sentences (visits turns (p.started script callback) requests)) ↔
      WellNested (lines script.sentences))) := by
  have hg := Script.Compiler.grown_of_compile h
  have hone : WellNested (lines script.sentences) →
      ∀ (p : Player SingleScript) turns callback requests,
        OnePart script.sentences (visits turns (p.started script callback) requests) := by
    intro hnested p turns callback requests
    exact onePart_visits hg (hg.direct_iff_fits.mpr hnested.toFits) hclosed p turns callback requests
  refine ⟨?_, ?_, fun hfree => ⟨?_, hone⟩⟩
  · intro hnested p turns callback requests
    exact (hone hnested p turns callback requests).exclusive
  · intro hfree hall own k j hm
    obtain ⟨p, turns, rs, e, b, hovertaken⟩ := exists_overtaken hg hclosed hfree hm
    exact hovertaken.inLead (hall p turns false rs)
  · intro hall
    have hd := Script.direct_of_none_misplaced hg fun own k j hm => by
      obtain ⟨p, turns, rs, e, b, hovertaken⟩ := exists_overtaken hg hclosed hfree hm
      exact hovertaken.not_onePart (hall p turns false rs)
    exact ⟨hg.direct_iff_fits.mp hd, hg.matched.stack_of_allClosed hclosed⟩

/-- A menu in the body of a conditional, around the marker of the conditional's last branch. -/
def otherwiseInMenu : Script where
  name := "t"
  sentences := [.conditional ⟨"\x7ba\x7d==1", [], some 5, some 7⟩, .menu ⟨[⟨"a", 3⟩], some 6⟩,
    .option "a" 1, .say ⟨"", "", "in a"⟩, .otherwise 0, .say ⟨"", "", "else"⟩, .close, .close]
  characters := []
  jumps := []
  warnings := []

theorem compile_otherwiseInMenu : Script.Compiler.standard.compile "t"
    "[If] \x7ba\x7d==1\n[Menu]\n- a\n: in a\n[Else]\n: else\n/\n/" = .ok otherwiseInMenu := by
  rfl

theorem allClosed_otherwiseInMenu : AllClosed otherwiseInMenu.sentences := by decide

theorem free_otherwiseInMenu : Script.Free otherwiseInMenu := by
  intro f
  refine ⟨⟨[("a", .int (if f 0 then 1 else 0))]⟩, ?_, ?_⟩
  · intro i s c hs hc
    have honly : ∀ k < 8,
        (otherwiseInMenu.sentences[k]?.bind Sentence.condition?).isSome = true → k = 0 := by decide
    obtain rfl : i = 0 := honly i (List.getElem?_eq_some_iff.mp hs).1 (by simp [hs, hc])
    obtain rfl : s = .conditional ⟨"\x7ba\x7d==1", [], some 5, some 7⟩ :=
      (Option.some.inj hs).symm
    obtain rfl : c = "\x7ba\x7d==1" := (Option.some.inj hc).symm
    cases f 0 <;> rfl
  · intro line hline
    have hlines : line = ⟨"", "", "in a"⟩ ∨ line = ⟨"", "", "else"⟩ := by
      simpa [otherwiseInMenu] using hline
    rcases hlines with rfl | rfl
    · exact ⟨"in a", rfl⟩
    · exact ⟨"else", rfl⟩

/-- All sessions of a menu inside a branch keep to one part of each block. With the marker of the
last branch inside the menu, not all do. -/
theorem exclusive_menu_in_branch_not_otherwise_in_menu :
    (∃ script, Script.Compiler.standard.compile "t"
        "[If] 1==1\n[Menu]\n- a\n: in a\n/\n[Else]\n: else\n/" = .ok script ∧
      ∀ (p : Player SingleScript) turns callback requests,
        Exclusive script.sentences (visits turns (p.started script callback) requests)) ∧
    ¬ ∀ (p : Player SingleScript) turns callback requests,
      Exclusive otherwiseInMenu.sentences
        (visits turns (p.started otherwiseInMenu callback) requests) := by
  constructor
  · have h : Script.Compiler.standard.compile "t"
        "[If] 1==1\n[Menu]\n- a\n: in a\n/\n[Else]\n: else\n/" = .ok
        ⟨"t", [.conditional ⟨"1==1", [], some 6, some 7⟩, .menu ⟨[⟨"a", 3⟩], some 4⟩,
          .option "a" 1, .say ⟨"", "", "in a"⟩, .close, .otherwise 0, .say ⟨"", "", "else"⟩,
          .close], [], [], []⟩ := by rfl
    exact ⟨_, h, (exclusive_of_wellNested_and_only_then h (by decide)).1 (by decide)⟩
  · intro hall
    have hmisplaced : Misplaced otherwiseInMenu.sentences 0 1 4 :=
      ⟨by decide, by decide, by decide⟩
    have hlead := (exclusive_of_wellNested_and_only_then compile_otherwiseInMenu
      allClosed_otherwiseInMenu).2.1 free_otherwiseInMenu hall 0 1 4 hmisplaced
    obtain ⟨m, hm⟩ := hlead.menu
    simp [otherwiseInMenu] at hm

/-- With the condition true, the option's body is executed and then the last branch too. -/
theorem visits_otherwiseInMenu :
    visits 9 ((Player.new (⟨none⟩ : SingleScript) ⟨[("a", .int 1)]⟩).started otherwiseInMenu false)
      [.choose 0, .proceed] = [0, 1, 3, 4, 5] ∧
    ¬ Exclusive otherwiseInMenu.sentences [0, 1, 3, 4, 5] := by
  constructor
  · decide +kernel
  · intro h
    have hnot : ∀ a, ¬ InLead otherwiseInMenu.sentences 0 a := by
      rintro a ⟨⟨m, hm⟩, _⟩
      simp [otherwiseInMenu] at hm
    have hbody : InBody otherwiseInMenu.sentences 0 7 3 :=
      ⟨⟨by decide, by decide, by decide⟩, hnot 3⟩
    have hlast : InBody otherwiseInMenu.sentences 0 7 5 :=
      ⟨⟨by decide, by decide, by decide⟩, hnot 5⟩
    exact h.one_body 0 7 3 5 4 rfl (by decide) (by decide) (by decide) hbody hlast (by decide)
      ⟨by decide, by decide⟩

end Player

end Fabula
