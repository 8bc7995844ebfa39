import Fabula.Proofs.Player.Session
import Fabula.Proofs.Script.Tables

/-!
# The turns of a single script

A script that is directed on its own is never left: a jump goes on with the next sentence. Each
turn either ends the run, or sends control from the marker of a branch to the end of its block, or
executes one sentence. `Turns` says what becomes of the player in each case. Turns of a grown
script move forward, so a run takes no more of them than the script has sentences.
-/

namespace Fabula.Player

open Script (Sentence Say Menu Conditional Grown)

/-- The attempt does nothing to the player but show something. -/
inductive Shows {D : Type} (p : Player D) : Attempt D → Prop
  | ok (events : List Event) : Shows p (.ok { p with events })
  | error (e : RunError) (events : List Event) : Shows p (.error (e, { p with events }))

section
variable {D : Type} {script : Script} {p q : Player D}

theorem executing?_eq {s : Sentence} (hscript : p.script = some script)
    (hs : script.sentence? p.index = some s) :
    p.executing? = if p.redirect? script s = none then some p.index else none := by
  rw [executing?, hscript, Option.bind_some, hs, Option.bind_some]

/-- Where redirection leads, it leads from a marker to the end of the innermost open block. -/
theorem redirect?_eq_some_iff {s : Sentence} {target : Nat} :
    p.redirect? script s = some target ↔
      ∃ own, p.scopes.head? = some own ∧ s.owner? = some own ∧ ∃ scope,
        script.sentence? own = some scope ∧ scope.redirect own s = some target := by
  have howner : ∀ (scope : Sentence) (own : Nat), scope.redirect own s = some target →
      s.owner? = some own := by
    intro scope own h
    cases scope <;> cases s <;> simp_all [Sentence.redirect, Sentence.owner?]
  simp only [redirect?, Option.bind_eq_some_iff]
  constructor
  · rintro ⟨own, hown, scope, hscope, hr⟩
    exact ⟨own, hown, howner scope own hr, scope, hscope, hr⟩
  · rintro ⟨own, hown, _, scope, hscope, hr⟩
    exact ⟨own, hown, scope, hscope, hr⟩

theorem redirect?_of_plain {s : Sentence} (h : s.owner? = none) :
    p.redirect? script s = none := by
  cases hr : p.redirect? script s with
  | none => rfl
  | some target =>
    obtain ⟨own, _, hown, _⟩ := redirect?_eq_some_iff.mp hr
    simp [h] at hown

-- The store alone decides a condition, whoever directs the player.
section
variable {E : Type} {q : Player E}

theorem decide_congr (h : q.store = p.store) (expression : String) :
    q.decide expression = p.decide expression := by
  rw [decide, decide, h]

theorem firstHolding_congr (h : q.store = p.store) (branches : List Script.Branch) :
    q.firstHolding branches = p.firstHolding branches := by
  induction branches with
  | nil => rfl
  | cons b rest ih => rw [firstHolding, firstHolding, decide_congr h, ih]

theorem entry_congr (h : q.store = p.store) (own : Nat) (c : Conditional) :
    q.entry own c = p.entry own c := by
  rw [entry, entry, decide_congr h, firstHolding_congr h]

end

theorem settle_waiting (hmoved : p.moved = false) (hrunning : p.status = .running) :
    p.settle = { p with status := .suspended } := by
  simp [settle, hmoved, hrunning]

theorem waitingMenu?_of_menu {m : Menu} (hscript : p.script = some script)
    (hs : script.sentence? p.index = some (.menu m)) (events : List Event) :
    waitingMenu? { p with
      status := .suspended, moved := false, scopes := p.index :: p.scopes, events } = some m := by
  simp [waitingMenu?, sentence?, hscript, hs]

theorem waitingMenu?_of_say {line : Say} (hscript : p.script = some script)
    (hs : script.sentence? p.index = some (.say line)) (events : List Event) :
    waitingMenu? { p with status := .suspended, moved := false, events } = none := by
  simp [waitingMenu?, sentence?, hscript, hs]

theorem shows_showText (p : Player D) (events : List Event) (content : String) :
    Shows p (showText { p with events } content) := by
  unfold showText
  split
  · exact .ok _
  · exact .error _ _

variable [Director D]

theorem turn_of_redirect {s : Sentence} {target : Nat} (hscript : p.script = some script)
    (hs : script.sentence? p.index = some s) (hr : p.redirect? script s = some target) :
    p.turn = .ok { p with index := target } := by
  simp only [turn, hscript, hs, hr]

theorem turn_of_execute {s : Sentence} (hscript : p.script = some script)
    (hs : script.sentence? p.index = some s) (hr : p.redirect? script s = none) :
    p.turn = (execute { p with moved := false } s).map settle := by
  simp only [turn, hscript, hs, hr]

theorem shows_executeSay (p : Player D) (line : Say) : Shows p (p.executeSay line) := by
  unfold executeSay
  by_cases hspeaker : line.speaker = ""
  · rw [if_pos hspeaker]
    exact shows_showText p _ line.text
  · rw [if_neg hspeaker, setCharacter]
    cases p.script.bind fun script => Director.character? p.director script line.speaker with
    | none => exact .error _ p.events
    | some name => exact shows_showText p _ line.text

theorem executeSay_eq_ok {line : Say} (h : p.executeSay line = .ok q) :
    ∃ events, q = { p with events } := by
  have hshows := shows_executeSay p line
  rw [h] at hshows
  cases hshows with
  | ok events => exact ⟨events, rfl⟩

theorem executeSay_eq_error {line : Say} {e : RunError} (h : p.executeSay line = .error (e, q)) :
    ∃ events, q = { p with events } := by
  have hshows := shows_executeSay p line
  rw [h] at hshows
  cases hshows with
  | error _ events => exact ⟨events, rfl⟩

theorem turn_close (hscript : p.script = some script)
    (hs : script.sentence? p.index = some .close) :
    p.turn = .ok { p with
      index := p.index + 1, moved := true, scopes := p.scopes.tail } := by
  rw [turn_of_execute hscript hs (redirect?_of_plain rfl)]
  rfl

theorem turn_marker {s : Sentence} {own : Nat} (hscript : p.script = some script)
    (hs : script.sentence? p.index = some s) (ho : s.owner? = some own)
    (hr : p.redirect? script s = none) :
    p.turn = .ok { p with index := p.index + 1, moved := true } := by
  rw [turn_of_execute hscript hs hr]
  cases s <;> first | rfl | simp [Sentence.owner?] at ho

theorem turn_menu {m : Menu} (hscript : p.script = some script) (hrunning : p.status = .running)
    (hs : script.sentence? p.index = some (.menu m)) :
    p.turn = .ok { p with
      status := .suspended, moved := false, scopes := p.index :: p.scopes,
      events := p.events ++ [.menu (m.options.map (·.text))] } := by
  rw [turn_of_execute hscript hs (redirect?_of_plain rfl)]
  exact congrArg Except.ok (settle_waiting (by rfl) (by exact hrunning))

theorem turn_conditional {c : Conditional} {target : Nat} (hscript : p.script = some script)
    (hs : script.sentence? p.index = some (.conditional c))
    (he : p.entry p.index c = .ok target) :
    p.turn = .ok { p with index := target, moved := true, scopes := p.index :: p.scopes } := by
  rw [turn_of_execute hscript hs (redirect?_of_plain rfl)]
  have hentered : (pushScope { p with moved := false } p.index).entry p.index c = .ok target :=
    (entry_congr (by rfl) _ _).trans he
  simp only [execute, executeConditional, hentered]
  rfl

theorem turn_conditional_error {c : Conditional} {e : RunError} (hscript : p.script = some script)
    (hs : script.sentence? p.index = some (.conditional c))
    (he : p.entry p.index c = .error e) :
    p.turn = .error (e, { p with moved := false, scopes := p.index :: p.scopes }) := by
  rw [turn_of_execute hscript hs (redirect?_of_plain rfl)]
  have hentered : (pushScope { p with moved := false } p.index).entry p.index c = .error e :=
    (entry_congr (by rfl) _ _).trans he
  simp only [execute, executeConditional, hentered]
  rfl

end

/-- What a turn that succeeds does to a player. -/
inductive Turns (script : Script) (p : Player SingleScript) : Player SingleScript → Prop
  | ended : script.sentence? p.index = none → Turns script p p.finish
  | redirected {s : Sentence} {target : Nat} : script.sentence? p.index = some s →
      p.redirect? script s = some target → Turns script p { p with index := target }
  | said {line : Say} (events : List Event) : script.sentence? p.index = some (.say line) →
      Turns script p { p with status := .suspended, moved := false, events }
  | offered {m : Menu} : script.sentence? p.index = some (.menu m) →
      Turns script p { p with
        status := .suspended, moved := false, scopes := p.index :: p.scopes,
        events := p.events ++ [.menu (m.options.map (·.text))] }
  | entered {c : Conditional} {target : Nat} :
      script.sentence? p.index = some (.conditional c) → p.entry p.index c = .ok target →
      Turns script p { p with
        index := target, moved := true, scopes := p.index :: p.scopes }
  | closed : script.sentence? p.index = some .close →
      Turns script p { p with index := p.index + 1, moved := true, scopes := p.scopes.tail }
  | jumped {label : Option String} : script.sentence? p.index = some (.jump label) →
      Turns script p { p with index := p.index + 1, moved := true }
  | marked {s : Sentence} {own : Nat} : script.sentence? p.index = some s →
      s.owner? = some own → p.redirect? script s = none →
      Turns script p { p with index := p.index + 1, moved := true }

section
variable {script : Script} {p q : Player SingleScript}

theorem turn_at_end (hscript : p.script = some script) (hend : script.sentence? p.index = none) :
    p.turn = .ok p.finish := by
  simp only [turn, hscript, hend]
  rfl

theorem turn_jump {label : Option String} (hscript : p.script = some script)
    (hs : script.sentence? p.index = some (.jump label)) :
    p.turn = .ok { p with index := p.index + 1, moved := true } := by
  rw [turn_of_execute hscript hs (redirect?_of_plain rfl)]
  cases label <;> rfl

/-- What is shown of the speaker of a line when speakers go by their own names. -/
def speakerEvent (line : Say) : Event :=
  if line.speaker = "" then .clearCharacter else .character line.speaker line.extra

theorem executeSay_by_name (hscript : p.script = some script) (hd : p.director = ⟨none⟩)
    (line : Say) : p.executeSay line = (p.shows (speakerEvent line)).showText line.text := by
  have hname : p.setCharacter line.speaker line.extra =
      .ok (p.shows (.character line.speaker line.extra)) := by
    simp [setCharacter, hscript, Director.character?, SingleScript.character?, hd]
  unfold executeSay speakerEvent
  split
  · rfl
  · rw [hname]
    rfl

theorem turn_say {line : Say} {text : String} (hscript : p.script = some script)
    (hrunning : p.status = .running) (hd : p.director = ⟨none⟩)
    (hs : script.sentence? p.index = some (.say line))
    (ht : Template.render? p.store line.text = some text) :
    p.turn = .ok { p with
      status := .suspended, moved := false,
      events := p.events ++ [speakerEvent line] ++ [.text text] } := by
  rw [turn_of_execute hscript hs (redirect?_of_plain rfl), execute,
    executeSay_by_name (by exact hscript) (by exact hd)]
  simp only [showText, shows, ht]
  exact congrArg Except.ok (settle_waiting (by rfl) (by exact hrunning))

theorem turn_say_error {line : Say} (hscript : p.script = some script)
    (hd : p.director = ⟨none⟩) (hs : script.sentence? p.index = some (.say line))
    (ht : Template.render? p.store line.text = none) :
    p.turn = .error (.unbalancedBraces line.text,
      { p with moved := false, events := p.events ++ [speakerEvent line] }) := by
  rw [turn_of_execute hscript hs (redirect?_of_plain rfl), execute,
    executeSay_by_name (by exact hscript) (by exact hd)]
  simp only [showText, shows, ht]
  rfl

theorem turns_of_execute {s : Sentence} (hscript : p.script = some script)
    (hrunning : p.status = .running) (hs : script.sentence? p.index = some s)
    (hr : p.redirect? script s = none) (hc : ∀ c, s ≠ .command c) (h : p.turn = .ok q) :
    Turns script p q := by
  have hmarker : ∀ own, s.owner? = some own → Turns script p q := by
    intro own ho
    rw [turn_marker hscript hs ho hr] at h
    obtain rfl := Except.ok.inj h
    exact .marked hs ho hr
  cases s with
  | say line =>
    rw [turn_of_execute hscript hs hr] at h
    cases he : execute { p with moved := false } (.say line) with
    | error e => simp [he, Except.map] at h
    | ok r =>
      rw [he] at h
      obtain rfl : r.settle = q := Except.ok.inj h
      obtain ⟨events, rfl⟩ := executeSay_eq_ok he
      rw [settle_waiting (by rfl) (by exact hrunning)]
      exact .said events hs
  | menu m =>
    rw [turn_menu hscript hrunning hs] at h
    obtain rfl := Except.ok.inj h
    exact .offered hs
  | conditional c =>
    cases he : p.entry p.index c with
    | ok target =>
      rw [turn_conditional hscript hs he] at h
      obtain rfl := Except.ok.inj h
      exact .entered hs he
    | error e => simp [turn_conditional_error hscript hs he] at h
  | close =>
    rw [turn_close hscript hs] at h
    obtain rfl := Except.ok.inj h
    exact .closed hs
  | jump label =>
    rw [turn_jump hscript hs] at h
    obtain rfl := Except.ok.inj h
    exact .jumped hs
  | option text own => exact hmarker own rfl
  | branch condition own => exact hmarker own rfl
  | otherwise own => exact hmarker own rfl
  | command c => exact absurd rfl (hc c)

theorem turns_of_turn (hg : Grown script.sentences) (hscript : p.script = some script)
    (hrunning : p.status = .running) (h : p.turn = .ok q) : Turns script p q := by
  cases hs : script.sentence? p.index with
  | none =>
    rw [turn_at_end hscript hs] at h
    obtain rfl := Except.ok.inj h
    exact .ended hs
  | some s =>
    cases hr : p.redirect? script s with
    | some target =>
      rw [turn_of_redirect hscript hs hr] at h
      obtain rfl := Except.ok.inj h
      exact .redirected hs hr
    | none =>
      refine turns_of_execute hscript hrunning hs hr ?_ h
      rintro c rfl
      exact hg.no_command c (List.mem_of_getElem? hs)

theorem executing_of_failure {e : RunError} (hscript : p.script = some script)
    (h : p.turn = .error (e, q)) : p.executing? = some p.index := by
  cases hs : script.sentence? p.index with
  | none => simp [turn_at_end hscript hs] at h
  | some s =>
    rw [executing?_eq hscript hs]
    cases hr : p.redirect? script s with
    | some target => simp [turn_of_redirect hscript hs hr] at h
    | none => rfl

end

section
variable {D : Type} {script : Script} {p : Player D}

theorem exit_of_redirect {scope s : Sentence} {own target : Nat}
    (h : scope.redirect own s = some target) : scope.exit? = some target := by
  cases scope <;> cases s <;> simp_all [Sentence.redirect, Sentence.exit?]

theorem redirect?_exit {s : Sentence} {target : Nat} (h : p.redirect? script s = some target) :
    ∃ own, p.scopes.head? = some own ∧ s.owner? = some own ∧
      Script.exitAt script.sentences own = some target := by
  obtain ⟨own, hhead, hown, scope, hscope, hr⟩ := redirect?_eq_some_iff.mp h
  refine ⟨own, hhead, hown, ?_⟩
  have hs : script.sentences[own]? = some scope := hscope
  rw [Script.exitAt, hs]
  exact exit_of_redirect hr

/-- Where control enters a conditional: at its first sentence, at the body of a later branch, or
past them all. -/
theorem entry_eq_ok {own target : Nat} {c : Conditional} (h : p.entry own c = .ok target) :
    target = own + 1 ∨ (∃ l, (l, target) ∈ (Sentence.conditional c).table) ∨
      target = Script.exitPoint c.exit own := by
  have hfirst : ∀ branches : List Script.Branch, ∀ t, p.firstHolding branches = .ok (some t) →
      ∃ b ∈ branches, b.target = t := by
    intro branches t hb
    induction branches with
    | nil => simp [firstHolding] at hb
    | cons b rest ih =>
      simp only [firstHolding] at hb
      split at hb
      · exact ⟨b, by simp, by simpa using hb⟩
      · obtain ⟨d, hd, ht⟩ := ih hb
        exact ⟨d, by simp [hd], ht⟩
      · simp at hb
  simp only [entry] at h
  split at h
  · exact .inl (Except.ok.inj h).symm
  · right
    cases hb : p.firstHolding c.branches with
    | error e => simp [hb, Except.map] at h
    | ok found =>
      rw [hb] at h
      cases found with
      | some t =>
        obtain rfl : t = target := Except.ok.inj h
        obtain ⟨b, hmem, rfl⟩ := hfirst _ _ hb
        exact .inl ⟨.branch b.condition, List.mem_append_left _ (List.mem_map_of_mem hmem)⟩
      | none =>
        have ht : c.otherwise.getD (Script.exitPoint c.exit own) = target := Except.ok.inj h
        cases ho : c.otherwise with
        | none => exact .inr (by rw [← ht, ho]; rfl)
        | some t =>
          rw [ho] at ht
          obtain rfl : t = target := ht
          exact .inl ⟨.otherwise, by simp [Sentence.table, ho]⟩
  · simp at h

theorem entry_forward (hg : Grown script.sentences) {own target : Nat} {c : Conditional}
    (hc : script.sentences[own]? = some (.conditional c)) (h : p.entry own c = .ok target) :
    own < target := by
  rcases entry_eq_ok h with rfl | ⟨l, hl⟩ | rfl
  · exact Nat.lt_succ_self own
  · obtain ⟨j, s, hj, ho, _, rfl⟩ := (hg.attached.mem_table hc rfl).mp hl
    exact Nat.lt_succ_of_lt (hg.attached.owned j s own hj ho).1
  · cases he : c.exit with
    | none => exact Nat.lt_succ_self own
    | some e =>
      have hexit : Script.exitAt script.sentences own = some e := by
        rw [Script.exitAt, hc]
        exact he
      exact ((hg.matched own e).mp hexit).lt

theorem entry_le_exit (hg : Grown script.sentences) {own target e : Nat} {c : Conditional}
    (hc : script.sentences[own]? = some (.conditional c)) (h : p.entry own c = .ok target)
    (he : Script.exitAt script.sentences own = some e) : target ≤ e := by
  rcases entry_eq_ok h with rfl | ⟨l, hl⟩ | rfl
  · exact ((hg.matched own e).mp he).lt
  · obtain ⟨j, s, hj, ho, _, rfl⟩ := (hg.attached.mem_table hc rfl).mp hl
    exact (hg.attached.owned j s own hj ho).2.2 e he
  · have hexit : c.exit = some e := by
      rw [Script.exitAt, hc] at he
      exact he
    rw [hexit]
    exact Nat.le_refl e

end

section
variable {script : Script} {p q : Player SingleScript}

theorem turn_forward (hg : Grown script.sentences) (hscript : p.script = some script)
    (hrunning : p.status = .running) (h : p.turn = .ok q) (hq : q.status = .running) :
    p.index < q.index ∧ p.index < script.size := by
  have hsize : ∀ s, script.sentence? p.index = some s → p.index < script.size :=
    fun s hs => (List.getElem?_eq_some_iff.mp hs).1
  cases turns_of_turn hg hscript hrunning h with
  | ended => simp [finish] at hq
  | said => simp at hq
  | offered => simp at hq
  | closed hs => exact ⟨Nat.lt_succ_self _, hsize _ hs⟩
  | jumped hs => exact ⟨Nat.lt_succ_self _, hsize _ hs⟩
  | marked hs _ _ => exact ⟨Nat.lt_succ_self _, hsize _ hs⟩
  | entered hs he => exact ⟨entry_forward hg hs he, hsize _ hs⟩
  | redirected hs hr =>
    obtain ⟨own, _, hown, hexit⟩ := redirect?_exit hr
    exact ⟨(hg.attached.owned _ _ _ hs hown).2.2 _ hexit, hsize _ hs⟩

theorem turn_keeps (hg : Grown script.sentences) (hscript : p.script = some script)
    (hrunning : p.status = .running) (h : p.turn = .ok q) :
    q.script = some script ∧ q.director = p.director ∧ q.store = p.store := by
  cases turns_of_turn hg hscript hrunning h <;> exact ⟨hscript, rfl, rfl⟩

end

section Enough
variable {script : Script} {p q : Player SingleScript}

/-- Past the sentences that are left, turns are not needed. -/
theorem run_of_enough (hg : Grown script.sentences) {turns more : Nat}
    (hscript : p.script = some script) (hturns : script.size - p.index < turns)
    (hmore : script.size - p.index < more) :
    run turns p = run more p ∧ runVisits turns p = runVisits more p := by
  -- a turn that leaves the player running moves it forward, so the bound falls with the turns
  induction turns generalizing p more with
  | zero => omega
  | succ turns ih =>
    cases more with
    | zero => omega
    | succ more =>
      by_cases hrunning : p.status = .running
      · simp only [run, runVisits, if_pos hrunning]
        cases hturn : p.turn with
        | error failure => exact ⟨rfl, rfl⟩
        | ok r =>
          have hr := (turn_keeps hg hscript hrunning hturn).1
          by_cases hnext : r.status = .running
          · obtain ⟨hforward, hsize⟩ := turn_forward hg hscript hrunning hturn hnext
            obtain ⟨hrun, hvisits⟩ := @ih r more hr (by omega) (by omega)
            exact ⟨hrun, congrArg (p.executing?.toList ++ ·) hvisits⟩
          · simp only [run_of_not_running hnext, runVisits_of_not_running hnext, and_self]
      · simp only [run_of_not_running hrunning, runVisits_of_not_running hrunning, and_self]

/-- With more turns than sentences, a turn taken is a turn that need not be counted. -/
theorem run_of_turn (hg : Grown script.sentences) {turns : Nat} (hturns : script.size < turns)
    (hscript : p.script = some script) (hrunning : p.status = .running) (h : p.turn = .ok q) :
    run turns p = run turns q ∧
      runVisits turns p = p.executing?.toList ++ runVisits turns q := by
  cases turns with
  | zero => omega
  | succ turns =>
    have hq := (turn_keeps hg hscript hrunning h).1
    have hsame : run turns q = run (turns + 1) q ∧
        runVisits turns q = runVisits (turns + 1) q := by
      by_cases hnext : q.status = .running
      · obtain ⟨hforward, hsize⟩ := turn_forward hg hscript hrunning h hnext
        exact run_of_enough hg hq (by omega) (by omega)
      · simp only [run_of_not_running hnext, runVisits_of_not_running hnext, and_self]
    rw [← hsame.1, ← hsame.2]
    simp only [run, runVisits, if_pos hrunning, h, and_self]

theorem visits_of_turn (hg : Grown script.sentences) {turns : Nat} (hturns : script.size < turns)
    (hscript : p.script = some script) (hrunning : p.status = .running) (h : p.turn = .ok q)
    (rs : List Request) : visits turns p rs = p.executing?.toList ++ visits turns q rs := by
  obtain ⟨hrun, hvisits⟩ := run_of_turn hg hturns hscript hrunning h
  rw [visits, visits, hrun, hvisits, List.append_assoc]

theorem visits_of_wait (hg : Grown script.sentences) {turns : Nat} (hturns : script.size < turns)
    (hscript : p.script = some script) (hrunning : p.status = .running) (h : p.turn = .ok q)
    {r : Request} {next : Player SingleScript} (hr : q.resume r = .ok next) (rs : List Request) :
    visits turns p (r :: rs) = p.executing?.toList ++ visits turns next rs := by
  have hwaits : q.status ≠ .running := by simp [(resume_running hr).1]
  have hq : run turns q = .done q := run_of_not_running hwaits
  rw [visits_of_turn hg hturns hscript hrunning h,
    visits_cons_of_resume (q := next) (by rw [hq]; exact hr), runVisits_of_not_running hwaits,
    List.nil_append]

end Enough

end Fabula.Player
