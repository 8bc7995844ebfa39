import Fabula.Proofs.Player.Display
import Fabula.Terminal.Program

/-!
# Going on at a terminal

A session that waits takes every line as a request, unless a menu is open: then a line is taken that
picks an option by its number, and any other line is complained about. So a line that goes on can be
found wherever the player stands but on a menu without options, and there the session is stuck:
every line is complained about, until there are no more.
-/

namespace Fabula

open Player (Request Kept Waits patience)
open Script (Compiler Grown)

/-- The sentence is a menu to which no option belongs. -/
def Script.Barren (script : Script) (i : Nat) : Prop :=
  (∃ m, script.sentence? i = some (.menu m)) ∧
    ∀ j text, script.sentence? j ≠ some (.option text i)

theorem Script.barren_iff {script : Script} (hg : Grown script.sentences) {i : Nat}
    {m : Script.Menu} (hi : script.sentence? i = some (.menu m)) :
    script.Barren i ↔ m.options = [] := by
  constructor
  · rintro ⟨_, hnone⟩
    rw [List.eq_nil_iff_forall_not_mem]
    intro o ho
    have hmem : (Script.Line.option o.text, o.target) ∈ (Script.Sentence.menu m).table :=
      List.mem_map.mpr ⟨o, ho, rfl⟩
    obtain ⟨j, marker, hj, hown, hline, _⟩ := (hg.attached.mem_table hi rfl).mp hmem
    cases marker with
    | option text own =>
      obtain rfl := Option.some.inj hown
      exact hnone j text hj
    | say | close | menu | conditional | branch | otherwise | jump | command => cases hline
  · intro hempty
    refine ⟨⟨m, hi⟩, ?_⟩
    intro j text hj
    obtain ⟨o, ho, _⟩ := hg.attached.marker_option hi hj rfl
    simp [hempty] at ho

namespace Printing
variable {α β γ : Type}

theorem of_andThen (a : α) (f : α → Printing β) : (of a).andThen f = f a := rfl

theorem andThen_assoc (p : Printing α) (f : α → Printing β) (g : β → Printing γ) :
    (p.andThen f).andThen g = p.andThen fun a => (f a).andThen g := by
  obtain ⟨lines, _ | a⟩ := p
  · rfl
  · rcases hf : f a with ⟨more, _ | b⟩ <;> simp [andThen, hf]

theorem result_eq_ok {p : Printing α} {f : α → Printing β} {b : β}
    (h : (p.andThen f).result = .ok b) : ∃ a, p.result = .ok a ∧ (f a).result = .ok b := by
  obtain ⟨lines, _ | a⟩ := p
  · cases h
  · exact ⟨a, rfl, h⟩

end Printing

namespace Session

section
variable {D : Type} {s : Session D} {line : List Char}

theorem choice?_zero (line : List Char) : choice? 0 line = none := by
  rw [choice?, Option.bind_eq_none_iff]
  intro n _
  have hbounds : ¬(decide (1 ≤ n) && decide (n ≤ 0)) = true := by
    simp only [Bool.and_eq_true, decide_eq_true_eq]
    omega
  exact if_neg hbounds

theorem choice?_first {count : Nat} (h : 0 < count) : choice? count ['1'] = some 0 := by
  have hread : Text.readUnsigned? (twoTo 64) (Text.trim ['1']) = some 1 := by decide +kernel
  have hbounds : 1 ≤ count := h
  simp [choice?, hread, hbounds]

/-- The request that a line makes of the player. A line that picks no option of the menu that waits
makes none. -/
def request? (s : Session D) (line : List Char) : Option Request :=
  match s.player.waitingMenu? with
  | none => some .proceed
  | some menu => (choice? menu.options.length line).map .choose

theorem request?_of_empty {m : Script.Menu} (hmenu : s.player.waitingMenu? = some m)
    (hempty : m.options = []) (line : List Char) : s.request? line = none := by
  simp only [request?, hmenu, hempty, List.length_nil, choice?_zero, Option.map_none]

variable [Director D]

/-- A line with which the session goes on: it is taken as a request that passes the checks of the
player. -/
def Resumes (s : Session D) (line : List Char) : Prop :=
  ∃ r q, s.request? line = some r ∧ s.player.resume r = .ok q ∧
    s.feed line = after s.console (s.player.answer patience r)

/-- The session after lines of input, as far as it waits for them. -/
def taking (s : Session D) : List (List Char) → Printing (Session D)
  | [] => .of s
  | line :: rest =>
    if s.waits then (s.feed line).andThen fun next => next.taking rest else .of s

theorem feed_of_request {r : Request} (h : s.request? line = some r) :
    s.feed line = after s.console (s.player.answer patience r) := by
  cases hmenu : s.player.waitingMenu? with
  | none =>
    simp only [request?, hmenu, Option.some.injEq] at h
    subst h
    simp only [feed, hmenu]
    rfl
  | some menu =>
    simp only [request?, hmenu] at h
    obtain ⟨choice, hchoice, rfl⟩ := Option.map_eq_some_iff.mp h
    simp only [feed, hmenu, hchoice]
    rfl

theorem feed_of_no_request (h : s.request? line = none) : ∃ menu,
    s.player.waitingMenu? = some menu ∧ s.feed line = ⟨[complaint menu.options.length], .ok s⟩ := by
  cases hmenu : s.player.waitingMenu? with
  | none => simp [request?, hmenu] at h
  | some menu =>
    simp only [request?, hmenu] at h
    refine ⟨menu, rfl, ?_⟩
    simp only [feed, hmenu, Option.map_eq_none_iff.mp h]

/-- Lines that were taken do not come back. -/
theorem feedAll_append (s : Session D) (lines more : List (List Char)) :
    s.feedAll (lines ++ more) = (s.taking lines).andThen fun t => t.feedAll more := by
  induction lines generalizing s with
  | nil => rfl
  | cons line rest ih =>
    by_cases hwaits : s.waits = true
    · simp only [List.cons_append, feedAll, taking, if_pos hwaits, Printing.andThen_assoc, ih]
    · have hover : s.feedAll more = .of () := by cases more <;> simp [feedAll, hwaits]
      simp only [List.cons_append, feedAll, taking, if_neg hwaits, Printing.of_andThen, hover]

/-- A line goes on unless it meets a menu without options. -/
theorem exists_resumes_iff (hwaits : s.waits = true) :
    (∃ line, s.Resumes line) ↔ ∀ m, s.player.waitingMenu? = some m → m.options ≠ [] := by
  have hsuspended : s.player.status = .suspended := by simpa [waits] using hwaits
  constructor
  · rintro ⟨line, r, _, hr, _, _⟩ m hm hempty
    rw [request?_of_empty hm hempty] at hr
    cases hr
  · intro hoptions
    cases hmenu : s.player.waitingMenu? with
    | none =>
      have hr : s.request? [] = some .proceed := by simp only [request?, hmenu]
      exact ⟨[], _, _, hr, Player.resume_proceed_of_line hsuspended hmenu, feed_of_request hr⟩
    | some m =>
      obtain ⟨o, rest, ho⟩ := List.exists_cons_of_ne_nil (hoptions m hmenu)
      have hfirst : m.options[0]? = some o := by rw [ho]; rfl
      have hr : s.request? ['1'] = some (.choose 0) := by
        simp only [request?, hmenu, ho, List.length_cons, choice?_first (Nat.succ_pos _)]
        rfl
      exact ⟨['1'], _, _, hr, Player.resume_choose_of_menu hmenu hfirst, feed_of_request hr⟩

/-- At a menu without options every line is complained about. -/
theorem feedAll_of_empty {m : Script.Menu} (hmenu : s.player.waitingMenu? = some m)
    (hempty : m.options = []) (lines : List (List Char)) :
    s.feedAll lines = ⟨lines.map fun _ => complaint 0, .ok ()⟩ := by
  have hwaits : s.waits = true := by simp [waits, (Player.waitingMenu?_eq_some hmenu).1]
  induction lines with
  | nil => rfl
  | cons line rest ih =>
    obtain ⟨menu, hm, hfeed⟩ := feed_of_no_request (request?_of_empty hmenu hempty line)
    obtain rfl := Option.some.inj (hmenu.symm.trans hm)
    rw [feedAll, if_pos hwaits, hfeed, hempty]
    simp [Printing.andThen, ih]

end

/-- The player plays the script, and where it waits it stands on a sentence that does. -/
structure Poised (script : Script) (p : Player SingleScript) : Prop where
  plays : p.script = some script
  waits : p.status = .suspended → Waits p

section
variable {script : Script} {p : Player SingleScript} {s t : Session SingleScript}

theorem kept_poised (hg : Grown script.sentences) : Kept fun p _ => Poised script p where
  turn p q _ hrunning h hturn := by
    refine ⟨(Player.turn_keeps hg h.plays hrunning hturn).1, fun hq => ?_⟩
    rcases Player.settled_of_turn hg h.plays hrunning hturn with hstill | hsettled
    · simp [hstill] at hq
    · exact hsettled.waits hq
  failure p q e _ hrunning h hturn :=
    ⟨(Player.turn_eq_error hg h.plays hturn).2, by simp [Player.abort]⟩
  resume p q r _ h hr :=
    ⟨(Player.resume_keeps hr).1.trans h.plays, by simp [(Player.resume_running hr).2]⟩

theorem Poised.clearLog (h : Poised script p) : Poised script p.clearLog := by
  refine ⟨h.plays, fun hp => ?_⟩
  cases h.waits hp with
  | line hscript hlt hs => exact .line hscript hlt hs
  | menu hscript hlt hs hhead hm => exact .menu hscript hlt hs hhead hm

theorem Poised.after {console : Console} {o : Player.Outcome SingleScript}
    (h : Poised script o.player) (hs : (Session.after console o).result = .ok s) :
    Poised script s.player := by
  simp only [Session.after] at hs
  split at hs
  · cases hs
  · obtain rfl := Except.ok.inj hs
    exact h.clearLog

theorem Poised.feed {line : List Char} (hg : Grown script.sentences) (h : Poised script s.player)
    (ht : (s.feed line).result = .ok t) : Poised script t.player := by
  cases hr : s.request? line with
  | some r =>
    rw [feed_of_request hr] at ht
    have hanswer : Poised script (s.player.answer patience r).player :=
      @Kept.answer _ _ _ (kept_poised hg) patience _ [] h r
    exact hanswer.after ht
  | none =>
    obtain ⟨_, _, hfeed⟩ := feed_of_no_request hr
    rw [hfeed] at ht
    obtain rfl := Except.ok.inj ht
    exact h

theorem Poised.taking {lines : List (List Char)} (hg : Grown script.sentences)
    (h : Poised script s.player) (ht : (s.taking lines).result = .ok t) :
    Poised script t.player := by
  induction lines generalizing s with
  | nil =>
    obtain rfl := Except.ok.inj ht
    exact h
  | cons line rest ih =>
    rw [Session.taking] at ht
    split at ht
    · obtain ⟨next, hnext, ht⟩ := Printing.result_eq_ok ht
      exact ih (h.feed hg hnext) ht
    · obtain rfl := Except.ok.inj ht
      exact h

theorem Poised.barren_iff (hg : Grown script.sentences) (h : Poised script s.player)
    (hwaits : s.waits = true) : script.Barren s.player.index ↔
      ∃ m, s.player.waitingMenu? = some m ∧ m.options = [] := by
  constructor
  · intro hbarren
    cases h.waits (by simpa [Session.waits] using hwaits) with
    | line hscript _ hs =>
      obtain rfl := Option.some.inj (h.plays.symm.trans hscript)
      obtain ⟨m, hm⟩ := hbarren.1
      cases hs.symm.trans hm
    | menu hscript _ hs _ hm =>
      obtain rfl := Option.some.inj (h.plays.symm.trans hscript)
      exact ⟨_, hm, (script.barren_iff hg hs).mp hbarren⟩
  · rintro ⟨m, hm, hempty⟩
    have hs := (Player.waitingMenu?_eq_some hm).2.2
    rw [Player.sentence?, h.plays] at hs
    exact (script.barren_iff hg hs).mpr hempty

/-- Where the player is poised, a line goes on unless the sentence is barren. -/
theorem Poised.exists_resumes_iff (hg : Grown script.sentences) (h : Poised script s.player)
    (hwaits : s.waits = true) :
    (∃ line, s.Resumes line) ↔ ¬script.Barren s.player.index := by
  rw [Session.exists_resumes_iff hwaits, h.barren_iff hg hwaits]
  simp only [not_exists, not_and, ne_eq]

end

end Session

namespace Terminal

open Session (Poised)

/-- The session of one script after lines of input. -/
def played (disk : Disk) (file : String) (settings : List Setting) (lines : List (List Char)) :
    Printing (Session SingleScript) :=
  (openScript disk file settings).andThen fun s => s.taking lines

section
variable {disk : Disk} {file name text : String} {script : Script}

theorem poised_start (settings : List Setting) (script : Script) :
    Poised script ((Player.new ⟨none⟩ (Store.ofList settings)).started script false) :=
  ⟨rfl, by simp [Player.started]⟩

theorem poised_played {settings : List Setting} {lines : List (List Char)}
    {s : Session SingleScript} (hread : readScript disk file = .ok (name, text))
    (hcompile : Compiler.standard.compile name text = .ok script)
    (h : (played disk file settings lines).result = .ok s) : Poised script s.player := by
  have hg := Compiler.grown_of_compile hcompile
  obtain ⟨first, hfirst, htaking⟩ := Printing.result_eq_ok h
  simp only [openScript, hread, hcompile] at hfirst
  have hrun := @Kept.run _ _ _ (Session.kept_poised hg) patience _ [] (poised_start settings script)
  exact (hrun.after hfirst).taking hg htaking

theorem printing_append (settings : List Setting) (lines more : List (List Char)) :
    (Opening.script (openScript disk file settings)).printing (lines ++ more) =
      (played disk file settings lines).andThen fun t => t.feedAll more := by
  simp only [Opening.printing, played, Printing.andThen_assoc, Session.feedAll_append]

end

/-- A script in a file was compiled. Wherever its session waits there is a line that goes on, unless
the session stands on a menu to which no option belongs: there every further line is complained
about, to the end of the input. The same holds of every player of the script, however many turns its
requests are granted. -/
theorem goes_on_unless_barren {disk : Disk} {file name text : String} {script : Script}
    (hread : readScript disk file = .ok (name, text))
    (hcompile : Compiler.standard.compile name text = .ok script) (settings : List Setting) :
    (∀ lines s, (played disk file settings lines).result = .ok s → s.waits = true →
      s.player.script = some script ∧
      ((∃ line, s.Resumes line) ↔ ¬script.Barren s.player.index) ∧
      (script.Barren s.player.index → ∀ more,
        (Opening.script (openScript disk file settings)).printing (lines ++ more) =
          ⟨(played disk file settings lines).lines ++ more.map fun _ => Session.complaint 0,
            .ok ()⟩)) ∧
    ∀ turns requests, ∀ o ∈ Player.session turns
        (Player.new (⟨none⟩ : SingleScript) (Store.ofList settings)) script false requests,
      o.player.status = .suspended → ∀ console : Console,
        (∃ line, (Session.mk o.player console).Resumes line) ↔ ¬script.Barren o.player.index := by
  have hg := Compiler.grown_of_compile hcompile
  constructor
  · intro lines s h hwaits
    have hpoised := poised_played hread hcompile h
    refine ⟨hpoised.plays, hpoised.exists_resumes_iff hg hwaits, ?_⟩
    intro hbarren more
    obtain ⟨m, hm, hempty⟩ := (hpoised.barren_iff hg hwaits).mp hbarren
    rw [printing_append, Printing.andThen, h]
    simp only [Session.feedAll_of_empty hm hempty]
  · intro turns requests o ho hwaits console
    have hstart := poised_start settings script
    obtain ⟨_, hpoised⟩ := ((Session.kept_poised hg).session turns hstart requests).1 o ho
    have hsession : Poised script (Session.mk o.player console).player := hpoised
    exact hsession.exists_resumes_iff hg (by simpa [Session.waits] using hwaits)

/-- A menu with two options. A menu without any stands in the first of them. -/
def antechamberText : String := "[Menu]\n- in\n[Menu]\n/\n- out\n: bye\n/"

def antechamber : Disk := ⟨fun _ => .ok antechamberText, fun _ => none⟩

/-- After a line that names no option the outer menu still waits for one, and `1` leads to the inner
menu, which takes no line. A player may go past the inner menu, to the option after it. -/
theorem goes_on_in_antechamber : ∃ name text script,
    readScript antechamber "t" = .ok (name, text) ∧
    Compiler.standard.compile name text = .ok script ∧
    (∃ s, (played antechamber "t" [] [['x']]).result = .ok s ∧ s.waits = true ∧
      ∃ line, s.Resumes line) ∧
    (∃ s, (played antechamber "t" [] [['x'], ['1']]).result = .ok s ∧ s.waits = true ∧
      ¬∃ line, s.Resumes line) ∧
    (Opening.script (openScript antechamber "t" [])).printing ([['x'], ['1']] ++ [[], ['1']]) =
      ⟨["  1. in", "  2. out", "choose 1-2", "choose 1-0", "choose 1-0"], .ok ()⟩ := by
  obtain ⟨name, hread⟩ : ∃ name, readScript antechamber "t" = .ok (name, antechamberText) :=
    ⟨_, rfl⟩
  have hcompile : Compiler.standard.compile name antechamberText = .ok ⟨name, [.menu ⟨[⟨"in", 2⟩,
    ⟨"out", 5⟩], some 6⟩, .option "in" 0, .menu ⟨[], some 3⟩, .close, .option "out" 0,
    .say ⟨"", "", "bye"⟩, .close], [], [], []⟩ := by rfl
  obtain ⟨hall, _⟩ := goes_on_unless_barren hread hcompile []
  obtain ⟨outer, houter, houterWaits, houterIndex⟩ : ∃ s,
      (played antechamber "t" [] [['x']]).result = .ok s ∧ s.waits = true ∧ s.player.index = 0 :=
    ⟨_, rfl, rfl, rfl⟩
  obtain ⟨inner, hinner, hinnerWaits, hinnerIndex⟩ : ∃ s,
      (played antechamber "t" [] [['x'], ['1']]).result = .ok s ∧ s.waits = true ∧
        s.player.index = 2 := ⟨_, rfl, rfl, rfl⟩
  obtain ⟨_, hgoes, _⟩ := hall _ _ houter houterWaits
  obtain ⟨_, hstays, hstuck⟩ := hall _ _ hinner hinnerWaits
  rw [houterIndex] at hgoes
  rw [hinnerIndex] at hstays hstuck
  have hbarren := (Script.barren_iff (Compiler.grown_of_compile hcompile) (i := 2) rfl).mpr rfl
  refine ⟨name, _, _, hread, hcompile, ⟨outer, houter, houterWaits, hgoes.mpr ?_⟩,
    ⟨inner, hinner, hinnerWaits, fun h => hstays.mp h hbarren⟩, ?_⟩
  · intro h
    exact h.2 1 "in" rfl
  · rw [hstuck hbarren]
    rfl

/-- A menu without options, before a line. -/
def stall : Disk := ⟨fun _ => .ok "[Menu]\n/\n: after", fun _ => none⟩

/-- Nothing that is typed leads to the line after the menu. -/
theorem stuck_before_a_line : ∃ s, (played stall "t" [] []).result = .ok s ∧ s.waits = true ∧
    ¬∃ line, s.Resumes line := by
  refine ⟨_, rfl, rfl, ?_⟩
  rw [Session.exists_resumes_iff rfl]
  intro hoptions
  exact hoptions ⟨[], some 1⟩ rfl rfl

end Terminal

end Fabula
