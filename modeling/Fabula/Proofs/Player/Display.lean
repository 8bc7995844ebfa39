import Fabula.Proofs.Player.Cues

/-!
# What stays on display

A menu stays on display until it is cleared, the panel until it is hidden. A call that returns
displays the menu that it waits at, and otherwise leaves on display what was there when it was made:
only `proceed` and `choose` clear a menu that waits, and only the end of a run hides the panel.
-/

namespace Fabula

open Script (Menu Say Conditional Sentence Grown)

namespace Event

def menuAfter (shown : Option (List String)) : Event → Option (List String)
  | .menu texts => some texts
  | .clearMenu => none
  | _ => shown

def panelAfter (shown : Option Bool) : Event → Option Bool
  | .visible b => some b
  | _ => shown

/-- The last menu, unless it has been cleared. -/
def menuShown (events : List Event) : Option (List String) := events.foldl menuAfter none

/-- What was last said of the panel, if anything was. -/
def panelShown (events : List Event) : Option Bool := events.foldl panelAfter none

/-- Neither a menu nor the panel is concerned. -/
def isDialogue : Event → Bool
  | .character _ _ => true
  | .clearCharacter => true
  | .text _ => true
  | _ => false

@[simp] theorem menuShown_concat (events : List Event) (e : Event) :
    menuShown (events ++ [e]) = menuAfter (menuShown events) e := by
  simp [menuShown]

@[simp] theorem panelShown_concat (events : List Event) (e : Event) :
    panelShown (events ++ [e]) = panelAfter (panelShown events) e := by
  simp [panelShown]

theorem shown_append_dialogue {said : List Event} (h : ∀ e ∈ said, e.isDialogue = true)
    (events : List Event) :
    menuShown (events ++ said) = menuShown events ∧
      panelShown (events ++ said) = panelShown events := by
  induction said generalizing events with
  | nil => simp
  | cons e said ih =>
    obtain ⟨he, hsaid⟩ := List.forall_mem_cons.mp h
    have hcons : events ++ e :: said = (events ++ [e]) ++ said := by simp
    have hone : menuAfter (menuShown events) e = menuShown events ∧
        panelAfter (panelShown events) e = panelShown events := by
      cases e <;> simp_all [isDialogue, menuAfter, panelAfter]
    obtain ⟨hmenu, hpanel⟩ := ih hsaid (events ++ [e])
    rw [hcons, hmenu, hpanel, menuShown_concat, panelShown_concat]
    exact hone

end Event

def Script.Menu.texts (m : Menu) : List String := m.options.map (·.text)

namespace Player

variable {D : Type}

def menuShown (p : Player D) : Option (List String) := Event.menuShown p.events

def panelShown (p : Player D) : Option Bool := Event.panelShown p.events

/-- The menu on display is the one that waits for a choice. -/
def Tidy (p : Player D) : Prop := p.menuShown = p.waitingMenu?.map Menu.texts

/-- The attempt adds dialogue to what was shown, and changes nothing else. -/
inductive Speaks (p : Player D) : Attempt D → Prop
  | ok (said : List Event) : (∀ e ∈ said, e.isDialogue = true) →
      Speaks p (.ok { p with events := p.events ++ said })
  | error (e : RunError) (said : List Event) : (∀ e ∈ said, e.isDialogue = true) →
      Speaks p (.error (e, { p with events := p.events ++ said }))

theorem speaks_showText (p : Player D) (content : String) : Speaks p (p.showText content) := by
  unfold showText
  split
  · exact .ok [_] (by simp [Event.isDialogue])
  · have herror := Speaks.error (p := p) (.unbalancedBraces content) [] (by simp)
    simpa using herror

theorem Speaks.after {p : Player D} {e : Event} {a : Attempt D} (he : e.isDialogue = true)
    (h : Speaks (p.shows e) a) : Speaks p a := by
  cases h with
  | ok said hsaid =>
    have hall : ∀ f ∈ e :: said, f.isDialogue = true := List.forall_mem_cons.mpr ⟨he, hsaid⟩
    simpa [shows] using Speaks.ok (p := p) (e :: said) hall
  | error f said hsaid =>
    have hall : ∀ f ∈ e :: said, f.isDialogue = true := List.forall_mem_cons.mpr ⟨he, hsaid⟩
    simpa [shows] using Speaks.error (p := p) f (e :: said) hall

theorem speaks_executeSay [Director D] (p : Player D) (line : Say) :
    Speaks p (p.executeSay line) := by
  unfold executeSay
  by_cases hspeaker : line.speaker = ""
  · rw [if_pos hspeaker]
    exact (speaks_showText (p.shows .clearCharacter) line.text).after rfl
  · rw [if_neg hspeaker, setCharacter]
    cases p.script.bind fun script => Director.character? p.director script line.speaker with
    | none =>
      have herror := Speaks.error (p := p)
        (.unknownCharacter line.speaker p.index p.currentText) [] (by simp)
      simpa [Attempt.andThen] using herror
    | some name =>
      exact (speaks_showText (p.shows (.character name line.extra)) line.text).after rfl

/-- What is on display after turns: a menu that waits, or what was there before. -/
structure Displays (p q : Player SingleScript) : Prop where
  runs : q.runs = p.runs
  menu : q.menuShown = (q.waitingMenu?.map Menu.texts).or p.menuShown
  panel : q.panelShown = if q.status = .finished then some false else p.panelShown

section
variable {script : Script} {p q r : Player SingleScript}

theorem waitingMenu?_of_status (h : p.status ≠ .suspended) : p.waitingMenu? = none := by
  simp [waitingMenu?, h]

theorem displays_of_events (said : List Event) (hsaid : ∀ e ∈ said, e.isDialogue = true)
    (hruns : q.runs = p.runs) (hevents : q.events = p.events ++ said)
    (hmenu : q.waitingMenu? = none) (hstatus : q.status ≠ .finished) : Displays p q := by
  obtain ⟨hshown, hpanel⟩ := Event.shown_append_dialogue hsaid p.events
  refine ⟨hruns, ?_, ?_⟩
  · rw [hmenu, menuShown, hevents, hshown]
    rfl
  · rw [panelShown, hevents, hpanel, if_neg hstatus]
    rfl

theorem displays_finish (p : Player SingleScript) : Displays p p.finish := by
  refine ⟨rfl, ?_, ?_⟩
  · rw [waitingMenu?_of_status (by simp [finish])]
    simp [menuShown, finish, Event.menuAfter]
  · simp [panelShown, finish, Event.panelAfter]

theorem Displays.trans (h : Displays p q) (hq : q.status = .running) (h' : Displays q r) :
    Displays p r := by
  have hnone : q.waitingMenu? = none := waitingMenu?_of_status (by simp [hq])
  have hmenu : q.menuShown = p.menuShown := by rw [h.menu, hnone]; rfl
  have hpanel : q.panelShown = p.panelShown := by rw [h.panel, if_neg (by simp [hq])]
  exact ⟨h'.runs.trans h.runs, by rw [h'.menu, hmenu], by rw [h'.panel, hpanel]⟩

/-- What a line shows before it waits, or before it fails. -/
theorem turn_speaks {line : Say} (hscript : p.script = some script)
    (hs : script.sentence? p.index = some (.say line)) :
    ∃ said : List Event, (∀ e ∈ said, e.isDialogue = true) ∧
      (∀ q, p.turn = .ok q → q.events = p.events ++ said) ∧
      ∀ e q, p.turn = .error (e, q) → q.events = p.events ++ said ∧ q.runs = p.runs := by
  rw [turn_of_execute hscript hs (redirect?_of_plain rfl), execute]
  have hspeaks := speaks_executeSay { p with moved := false } line
  generalize executeSay { p with moved := false } line = a at hspeaks
  have hsettle : ∀ r : Player SingleScript, r.settle.events = r.events := by
    intro r
    unfold settle
    split <;> rfl
  cases hspeaks with
  | ok said hsaid =>
    refine ⟨said, hsaid, ?_, ?_⟩
    · intro q hq
      rw [← Except.ok.inj hq, hsettle]
    · intro e q hq
      simp [Except.map] at hq
  | error f said hsaid =>
    refine ⟨said, hsaid, ?_, ?_⟩
    · intro q hq
      simp [Except.map] at hq
    · intro e q hq
      obtain ⟨_, rfl⟩ := Prod.mk.inj (Except.error.inj hq)
      exact ⟨rfl, rfl⟩

theorem displays_turn (hg : Grown script.sentences) (hscript : p.script = some script)
    (hrunning : p.status = .running) (h : p.turn = .ok q) : Displays p q := by
  have hsame : q.runs = p.runs → q.events = p.events → q.status = .running → Displays p q := by
    intro hruns hevents hstatus
    refine displays_of_events [] (by simp) hruns (by simpa using hevents) ?_ ?_
    · exact waitingMenu?_of_status (by simp [hstatus])
    · simp [hstatus]
  cases turns_of_turn hg hscript hrunning h with
  | ended => exact displays_finish p
  | said events hs =>
    obtain ⟨said, hsaid, hevents, _⟩ := turn_speaks hscript hs
    exact displays_of_events said hsaid rfl (hevents _ h)
      (waitingMenu?_of_say hscript hs events) (by simp)
  | offered hs =>
    have hopen := waitingMenu?_of_menu hscript hs
    refine ⟨rfl, ?_, ?_⟩
    · rw [hopen]
      simp [menuShown, Event.menuAfter, Menu.texts]
    · simp [panelShown, Event.panelAfter]
  | redirected | entered | closed | jumped | marked => exact hsame rfl rfl hrunning

theorem displays_failure {e : RunError} (hg : Grown script.sentences)
    (hscript : p.script = some script) (hrunning : p.status = .running)
    (h : p.turn = .error (e, q)) : Displays p q.abort := by
  have habort : ∀ said : List Event, (∀ f ∈ said, f.isDialogue = true) →
      q.events = p.events ++ said → q.runs = p.runs → Displays p q.abort := by
    intro said hsaid hevents hruns
    refine displays_of_events said hsaid hruns hevents ?_ ?_
    · exact waitingMenu?_of_status (by simp [abort])
    · simp [abort]
  cases hs : script.sentence? p.index with
  | none => simp [turn_at_end hscript hs] at h
  | some s =>
    cases hr : p.redirect? script s with
    | some target => simp [turn_of_redirect hscript hs hr] at h
    | none =>
      cases s with
      | say line =>
        obtain ⟨said, hsaid, _, herror⟩ := turn_speaks hscript hs
        obtain ⟨hevents, hruns⟩ := herror e q h
        exact habort said hsaid hevents hruns
      | conditional c =>
        cases he : p.entry p.index c with
        | ok target => simp [turn_conditional hscript hs he] at h
        | error f =>
          rw [turn_conditional_error hscript hs he] at h
          obtain ⟨_, rfl⟩ := Prod.mk.inj (Except.error.inj h)
          exact habort [] (by simp) (by simp) rfl
      | menu m => simp [turn_menu hscript hrunning hs] at h
      | close => simp [turn_close hscript hs] at h
      | jump label => simp [turn_jump hscript hs] at h
      | option text own => simp [turn_marker hscript hs rfl hr] at h
      | branch condition own => simp [turn_marker hscript hs rfl hr] at h
      | otherwise own => simp [turn_marker hscript hs rfl hr] at h
      | command c => exact (hg.no_command c (List.mem_of_getElem? hs)).elim

-- By induction on the turns: all but the last leave the player running, so only the last can show
-- a menu or hide the panel.
theorem displays_run {turns : Nat} (hreads : Reads p) (hrunning : p.status = .running)
    (h : (run turns p).returned = true) : Displays p (run turns p).player := by
  induction turns generalizing p with
  | zero => simp [run, hrunning, Outcome.returned] at h
  | succ turns ih =>
    simp only [run, if_pos hrunning] at h ⊢
    cases hscript : p.script with
    | none =>
      simp only [turn_without_script hscript] at h ⊢
      rw [run_of_not_running (settled_finish p).halted]
      exact displays_finish p
    | some script =>
      have hg := (hreads script hscript).grown
      rcases hturn : p.turn with ⟨e, q⟩ | q
      · exact displays_failure hg hscript hrunning hturn
      · rw [hturn] at h
        have hone := displays_turn hg hscript hrunning hturn
        have hkept := (turn_keeps hg hscript hrunning hturn).1.trans hscript.symm
        dsimp only
        rcases settled_of_turn hg hscript hrunning hturn with hq | hq
        · exact hone.trans hq (ih (by rw [Reads, hkept]; exact hreads) hq h)
        · rw [run_of_not_running hq.halted]
          exact hone

/-- The call clears a menu that waits. -/
def Cue.clears : Cue → Bool
  | .proceed => true
  | .choose _ => true
  | _ => false

theorem resume_proceed (h : p.resume .proceed = .ok q) :
    q.panelShown = p.panelShown ∧ q.runs = p.runs ∧
      q.menuShown = if p.waitingMenu?.isSome then none else p.menuShown := by
  by_cases hwaits : p.status = .suspended
  · simp only [resume, if_pos hwaits] at h
    obtain rfl := Except.ok.inj h
    cases hmenu : p.waitingMenu? with
    | none => exact ⟨rfl, rfl, rfl⟩
    | some m => simp [panelShown, menuShown, shows, Event.panelAfter, Event.menuAfter]
  · simp [resume, hwaits] at h

theorem resume_choose {option : Nat} (h : p.resume (.choose option) = .ok q) :
    q.panelShown = p.panelShown ∧ q.runs = p.runs ∧
      p.waitingMenu?.isSome = true ∧ q.menuShown = none := by
  by_cases hwaits : p.status = .suspended
  · simp only [resume, if_pos hwaits] at h
    cases hmenu : p.waitingMenu? with
    | none => simp [hmenu] at h
    | some m =>
      cases ho : m.options[option]? with
      | none => simp [hmenu, ho] at h
      | some o =>
        simp only [hmenu, ho] at h
        obtain rfl := Except.ok.inj h
        simp [panelShown, menuShown, shows, Event.panelAfter, Event.menuAfter]
  · simp [resume, hwaits] at h

/-- What is on display when a call begins its run. -/
theorem prompt_display {a : Cue} (h : p.prompt a = .ok q) :
    q.menuShown = (if a.clears ∧ p.waitingMenu?.isSome then none else p.menuShown) ∧
      q.panelShown = (if a.resumes then p.panelShown else some true) ∧
      q.runs = if a.resumes then p.runs else p.runs + 1 := by
  cases a with
  | play script callback =>
    obtain rfl := Except.ok.inj h
    simp [started, begin, load, menuShown, panelShown, Event.menuAfter, Event.panelAfter,
      Cue.clears, Cue.resumes]
  | proceed =>
    obtain ⟨hpanel, hruns, hmenu⟩ := resume_proceed h
    simp [hpanel, hruns, hmenu, Cue.clears, Cue.resumes]
  | choose option =>
    obtain ⟨hpanel, hruns, hwaits, hmenu⟩ := resume_choose h
    simp [hpanel, hruns, hwaits, hmenu, Cue.clears, Cue.resumes]
  | goto index | jump outlet | next =>
    obtain ⟨_, rfl⟩ := goOn_eq_ok h
    exact ⟨rfl, rfl, rfl⟩

/-- What a player between two calls has on display. -/
structure Displayed (p : Player SingleScript) : Prop where
  menu : ∀ m, p.waitingMenu? = some m → p.menuShown = some m.texts
  panel : p.panelShown = some true ↔ p.status = .suspended ∨ p.status = .idle ∧ p.runs ≠ 0
  begun : p.status = .suspended → p.runs ≠ 0

theorem Displayed.run {a : Cue} (hp : Displayed p) (h : p.prompt a = .ok q)
    (hqr : Displays q r) (hhalted : r.status ≠ .running) : Displayed r := by
  obtain ⟨_, hpanel, hruns⟩ := prompt_display h
  have hbegun : q.panelShown = some true ∧ q.runs ≠ 0 := by
    rw [hpanel, hruns]
    rcases prompt_eq_ok h with ⟨script, callback, rfl, _⟩ | ⟨hresumes, hwaits, _⟩
    · simp [Cue.resumes]
    · rw [if_pos hresumes, if_pos hresumes]
      exact ⟨hp.panel.mpr (.inl hwaits), hp.begun hwaits⟩
  refine ⟨?_, ?_, fun _ => by rw [hqr.runs]; exact hbegun.2⟩
  · intro m hm
    rw [hqr.menu, hm]
    rfl
  · rw [hqr.panel, hqr.runs, hbegun.1]
    cases hstatus : r.status with
    | running => exact absurd hstatus hhalted
    | idle | suspended | finished => simp [hbegun.2]

theorem Cued.displayed (h : Cued p) : Displayed p := by
  induction h with
  | new director store =>
    refine ⟨?_, ?_, by simp [Player.new]⟩
    · intro m hm
      simp [waitingMenu?, Player.new] at hm
    · simp [panelShown, Event.panelShown, Player.new]
  | set director store _ ih => exact ⟨ih.menu, ih.panel, ih.begun⟩
  | @take p turns a hp ha h ih =>
    obtain ⟨hsettled, hreads⟩ := hp.settled
    have hhalted := (verdict_take hsettled hreads ha h).1.settled.halted
    rw [take_eq] at h hhalted ⊢
    cases hprompt : p.prompt a with
    | error e => exact ih
    | ok q =>
      simp only [hprompt] at h hhalted ⊢
      have hq := (prompt_script hreads ha hprompt).1
      exact ih.run hprompt (displays_run hq (prompt_running hprompt) h) hhalted

theorem tidy_take_iff {turns : Nat} {a : Cue} (hp : Cued p) (ha : a.Compiled)
    (h : (p.take turns a).returned = true) :
    (p.take turns a).player.Tidy ↔ (p.take turns a).player.waitingMenu?.isSome = true ∨
      p.Tidy ∧ (p.waitingMenu? = none ∨ a.clears = true) := by
  have hbefore := hp.displayed
  have hafter := (Cued.take hp ha h).displayed
  have hopen : ∀ q : Player SingleScript, Displayed q → q.waitingMenu?.isSome = true → q.Tidy := by
    intro q hq hsome
    obtain ⟨m, hm⟩ := Option.isSome_iff_exists.mp hsome
    rw [Tidy, hq.menu m hm, hm]
    rfl
  rw [take_eq] at h hafter ⊢
  cases hprompt : p.prompt a with
  | error e =>
    show p.Tidy ↔ p.waitingMenu?.isSome = true ∨ p.Tidy ∧ (p.waitingMenu? = none ∨ a.clears = true)
    cases hmenu : p.waitingMenu? with
    | none => simp
    | some m => simpa using hopen p hbefore (by simp [hmenu])
  | ok q =>
    simp only [hprompt] at h hafter ⊢
    obtain ⟨hreads, _⟩ := prompt_script hp.settled.2 ha hprompt
    have hdisplays := displays_run hreads (prompt_running hprompt) h
    obtain ⟨hmenu, _⟩ := prompt_display hprompt
    generalize (run turns q).player = r at hdisplays hafter
    cases hr : r.waitingMenu? with
    | some m => simpa using hopen r hafter (by simp [hr])
    | none =>
      have hshown : r.menuShown = q.menuShown := by rw [hdisplays.menu, hr]; rfl
      rw [Tidy, hr, hshown, hmenu, Tidy]
      cases hp' : p.waitingMenu? with
      | none => simp
      | some m => cases hclears : a.clears <;> simp [hbefore.menu m hp']

end

instance (p : Player D) : Decidable p.Tidy :=
  inferInstanceAs (Decidable (p.menuShown = p.waitingMenu?.map Menu.texts))

/-- A menu that waits is on display, and the panel is, from the first run on, until a run ends.
After a call the display is tidy exactly if a menu waits, or it was tidy before and the call does
not go past a menu that waits without clearing it. -/
theorem display_after_cues {p : Player SingleScript} (hp : Cued p) (a : Cue) (ha : a.Compiled) :
    (∀ m, p.waitingMenu? = some m → p.menuShown = some m.texts) ∧
      (p.panelShown = some true ↔ p.status = .suspended ∨ p.status = .idle ∧ p.runs ≠ 0) ∧
      ∀ turns, (p.take turns a).returned = true →
        ((p.take turns a).player.Tidy ↔ (p.take turns a).player.waitingMenu?.isSome = true ∨
          p.Tidy ∧ (p.waitingMenu? = none ∨ a.clears = true)) :=
  ⟨hp.displayed.menu, hp.displayed.panel, fun _ h => tidy_take_iff hp ha h⟩

/-- The host goes past the menu that waits, and then plays another script: the menu is still on
display, and stays so. -/
theorem display_past_doorway :
    let begun := ((Player.new ⟨none⟩ .empty).take 6 (.play doorway true)).player
    let p := (begun.take 6 (.goto 4)).player
    Cued begun ∧ (Cue.goto 4).Compiled ∧ (begun.take 6 (.goto 4)).returned = true ∧
      begun.Tidy ∧ ¬ p.Tidy ∧ ¬ (p.take 6 .proceed).player.Tidy := by
  intro begun p
  have hbegun : Cued begun := .take (.new ⟨none⟩ .empty) compiled_doorway (by rfl)
  have hp : Cued p := .take hbegun trivial (by rfl)
  obtain ⟨_, _, hgoto⟩ := display_after_cues hbegun (.goto 4) trivial
  obtain ⟨_, _, hproceed⟩ := display_after_cues hp .proceed trivial
  have huntidy : ¬ p.Tidy := by
    rw [hgoto 6 (by rfl)]
    decide
  refine ⟨hbegun, trivial, by rfl, by decide, huntidy, ?_⟩
  rw [hproceed 6 (by rfl)]
  rintro (hopen | ⟨htidy, _⟩)
  · exact absurd hopen (by decide)
  · exact huntidy htidy

/-- A line whose text cannot be shown. -/
def stumble : Script := ⟨"t", [.say ⟨"", "", "\x7b"⟩], [], [], []⟩

theorem compiled_stumble : stumble.Compiled := ⟨"t", ": \x7b", by rfl⟩

/-- No menu waits, and one is on display. No player waits, and the panel is on display. -/
theorem display_left_behind :
    let new := Player.new (⟨none⟩ : SingleScript) .empty
    let p := ((new.take 6 (.play doorway true)).player.take 6 (.goto 4)).player
    let q := (new.take 6 (.play stumble false)).player
    (Cued p ∧ p.waitingMenu? = none ∧ p.menuShown = some ["a"]) ∧
      Cued q ∧ q.status = .idle ∧ q.panelShown = some true := by
  intro new p q
  have hbegun : Cued (new.take 6 (.play doorway true)).player :=
    .take (.new ⟨none⟩ .empty) compiled_doorway (by rfl)
  have hp : Cued p := .take hbegun trivial (by rfl)
  have hq : Cued q := .take (.new ⟨none⟩ .empty) compiled_stumble (by rfl)
  exact ⟨⟨hp, by rfl, by rfl⟩, hq, by rfl, by rfl⟩

end Player

end Fabula
