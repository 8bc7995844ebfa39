import Fabula.Proofs.Player.Alone
import Fabula.Proofs.Player.Astray

/-!
# Directors in tandem

A player asks its director who speaks and where to go on, and nothing else. So directors that answer
a script alike, and go on to directors that answer the next script alike, make one player of two:
they lead it through the same turns, runs and calls.
-/

namespace Fabula.Player

open Script (Sentence Say)

section
variable {D : Type} (T : Script → D → D → Prop)

/-- Two answers are the same, and the directors go on with one script or are through with it. -/
inductive Met (script : Script) :
    Except ChainError Transfer × D → Except ChainError Transfer × D → Prop
  | stay {d d' : D} : T script d d' → Met script (.ok .stay, d) (.ok .stay, d')
  | execute (next : Script) {d d' : D} : T next d d' →
      Met script (.ok (.execute next), d) (.ok (.execute next), d')
  | finish (d d' : D) : Met script (.ok .finish, d) (.ok .finish, d')
  | error (e : ChainError) (d d' : D) : Met script (.error e, d) (.error e, d')

/-- Related directors answer alike what their script asks. -/
structure Tandem [Director D] : Prop where
  plain : ∀ {script d d'}, T script d d' → ∀ c, .command c ∉ script.sentences
  character : ∀ {script d d'}, T script d d' → ∀ key,
    Director.character? d' script key = Director.character? d script key
  leave : ∀ {script d d'} label, T script d d' → .jump label ∈ script.sentences →
    Met T script (Director.leave d (label.getD defaultOutlet))
      (Director.leave d' (label.getD defaultOutlet))
  finished : ∀ {script d d'}, T script d d' →
    Met T script (Director.finished d) (Director.finished d')

/-- A player under two directors. While it plays, they are related directors of its script. -/
inductive Along : Player D → Player D → Prop
  | plays {p : Player D} {script : Script} {d : D} : p.script = some script →
      T script p.director d → Along p (p.under d)
  | rests {p : Player D} (d : D) : p.status ≠ .running → p.status ≠ .suspended →
      Along p (p.under d)

/-- Two attempts are the same but for the directors, which are still in tandem after a success. -/
inductive Attempt.Alongside : Attempt D → Attempt D → Prop
  | ok {p q : Player D} : Along T p q → Attempt.Alongside (.ok p) (.ok q)
  | error (e : RunError) (p : Player D) (d : D) :
      Attempt.Alongside (.error (e, p)) (.error (e, p.under d))

end

section
variable {D : Type} {T : Script → D → D → Prop} {p q : Player D} {d : D} {script : Script}

theorem Along.under (h : Along T p q) : q = p.under q.director := by
  cases h <;> rfl

theorem Along.status (h : Along T p q) : q.status = p.status := by
  cases h <;> rfl

/-- A player that is through with its script needs no director. -/
theorem along_finish (p : Player D) (d : D) : Along T p.finish (p.finish.under d) :=
  .rests d (by simp [finish]) (by simp [finish])

theorem along_abort (p : Player D) (d : D) : Along T p.abort (p.abort.under d) :=
  .rests d (by simp [abort]) (by simp [abort])

theorem Along.settle (h : Along T p q) : Along T p.settle q.settle := by
  cases h with
  | @plays script d hscript hd =>
    rw [settle_under]
    have hsettled : p.settle.script = p.script ∧ p.settle.director = p.director := by
      unfold Player.settle
      split <;> exact ⟨rfl, rfl⟩
    exact .plays (hsettled.1.trans hscript) (by rwa [hsettled.2])
  | rests d hrunning hwaits =>
    have hidle : p.settle = p := by simp [Player.settle, hrunning]
    rw [settle_under, hidle]
    exact .rests d hrunning hwaits

theorem Attempt.Alongside.settle {a b : Attempt D} (h : Attempt.Alongside T a b) :
    Attempt.Alongside T (a.map Player.settle) (b.map Player.settle) := by
  cases h with
  | ok h => exact .ok h.settle
  | error e p d => exact .error e p d

/-- An attempt that keeps the script and its director is one that both make. -/
theorem alongside_under {a : Attempt D} (hd : T script p.director d)
    (hkeeps : ∀ q, a = .ok q → q.script = some script ∧ q.director = p.director) :
    Attempt.Alongside T a (a.under d) := by
  cases a with
  | error failure => exact .error failure.1 failure.2 d
  | ok q =>
    obtain ⟨hscript, hdirector⟩ := hkeeps q rfl
    exact .ok (.plays hscript (by rwa [hdirector]))

theorem nudged_under (d : D) (a : Nudge) :
    (p.under d).nudged a = (p.nudged a).map (Player.under · d) := by
  cases a with
  | request r => exact resume_under d p r
  | goto index =>
    by_cases hwaits : p.status = .suspended <;> simp only [nudged, under_status, hwaits] <;> rfl

variable [Director D]

theorem executeSay_under (hscript : p.script = some script)
    (hcharacter : ∀ key, Director.character? d script key =
      Director.character? p.director script key) (line : Say) :
    (p.under d).executeSay line = (p.executeSay line).under d := by
  have hdirector : (p.under d).director = d := rfl
  unfold executeSay
  by_cases hspeaker : line.speaker = ""
  · simp only [if_pos hspeaker]
    exact showText_under d p.clearCharacter line.text
  · simp only [if_neg hspeaker, setCharacter, under_script, hscript, Option.bind_some, hdirector,
      hcharacter]
    cases Director.character? p.director script line.speaker with
    | none => rfl
    | some name => exact showText_under d (p.shows (.character name line.extra)) line.text

theorem alongside_leave {outlet : String} (hscript : p.script = some script)
    (hmet : Met T script (Director.leave p.director outlet) (Director.leave d outlet)) :
    Attempt.Alongside T (p.leave outlet) ((p.under d).leave outlet) := by
  have hdirector : (p.under d).director = d := rfl
  unfold Player.leave
  rw [hdirector]
  generalize Director.leave p.director outlet = x at hmet
  generalize Director.leave d outlet = x' at hmet
  cases hmet with
  | stay hnext => exact .ok (.plays hscript hnext)
  | execute next hnext => exact .ok (.plays rfl hnext)
  | finish d₁ d₂ => exact .ok (along_finish { p with director := d₁ } d₂)
  | error e d₁ d₂ => exact .error (.chain e) { p with director := d₁ } d₂

theorem alongside_atEnd (hmet : Met T script (Director.finished p.director) (Director.finished d)) :
    Attempt.Alongside T p.atEnd (p.under d).atEnd := by
  have hdirector : (p.under d).director = d := rfl
  unfold Player.atEnd
  rw [hdirector]
  generalize Director.finished p.director = x at hmet
  generalize Director.finished d = x' at hmet
  cases hmet with
  | execute next hnext => exact .ok (.plays rfl hnext)
  | @stay d₁ d₂ _ => exact .ok (along_finish { p with director := d₁ } d₂)
  | finish d₁ d₂ => exact .ok (along_finish { p with director := d₁ } d₂)
  | error e d₁ d₂ => exact .error (.chain e) { p with director := d₁ } d₂

namespace Tandem
variable (hT : Tandem T)
include hT

theorem execute (hscript : p.script = some script) (hd : T script p.director d) {s : Sentence}
    (hs : s ∈ script.sentences) : Attempt.Alongside T (p.execute s) ((p.under d).execute s) := by
  cases s with
  | say line =>
    have hunder := executeSay_under hscript (hT.character hd) line
    rw [Player.execute, Player.execute, hunder]
    refine alongside_under hd fun q hq => ?_
    obtain ⟨events, rfl⟩ := executeSay_eq_ok hq
    exact ⟨hscript, rfl⟩
  | conditional c =>
    rw [Player.execute, Player.execute, executeConditional_under]
    refine alongside_under hd fun q hq => ?_
    unfold executeConditional at hq
    cases he : (p.pushScope p.index).entry p.index c with
    | error e => simp [he] at hq
    | ok target =>
      simp only [he] at hq
      obtain rfl := Except.ok.inj hq
      exact ⟨hscript, rfl⟩
  | jump label =>
    have hleave : ∀ r : Player D, r.execute (.jump label) = r.leave (label.getD defaultOutlet) := by
      intro r
      cases label <;> rfl
    rw [hleave, hleave]
    exact alongside_leave hscript (hT.leave label hd hs)
  | command c => exact absurd hs (hT.plain hd c)
  | close | menu | option | branch | otherwise => exact .ok (.plays hscript hd)

theorem turn (hrunning : p.status = .running) (h : Along T p q) :
    Attempt.Alongside T p.turn q.turn := by
  cases h with
  | rests d hidle _ => exact absurd hrunning hidle
  | @plays script d hscript hd =>
    cases hs : script.sentence? p.index with
    | none =>
      have hend : ∀ r : Player D, r.script = p.script → r.index = p.index → r.turn = r.atEnd := by
        intro r hr hindex
        simp only [Player.turn, hr, hscript, hindex, hs]
      rw [hend p rfl rfl, hend (p.under d) rfl rfl]
      exact alongside_atEnd (hT.finished hd)
    | some s =>
      cases hr : p.redirect? script s with
      | some target =>
        rw [turn_of_redirect hscript hs hr, turn_of_redirect (p := p.under d) hscript hs hr]
        exact .ok (.plays hscript hd)
      | none =>
        have hexecute := hT.execute (p := { p with moved := false }) hscript hd
          (List.mem_of_getElem? hs)
        rw [turn_of_execute hscript hs hr, turn_of_execute (p := p.under d) hscript hs hr]
        exact hexecute.settle

theorem run (turns : Nat) (h : Along T p q) :
    Outcome.Agrees (Along T) (run turns p) (run turns q) := by
  induction turns generalizing p q with
  | zero =>
    simp only [Player.run, h.status]
    split
    · exact .unfinished h
    · exact .done h
  | succ turns ih =>
    by_cases hrunning : p.status = .running
    · have hturn := hT.turn hrunning h
      simp only [Player.run, h.status, if_pos hrunning]
      generalize p.turn = a at hturn
      generalize q.turn = b at hturn
      cases hturn with
      | ok hnext => exact ih hnext
      | error e p d => exact .failed e (along_abort p d)
    · rw [run_of_not_running hrunning, run_of_not_running (by rwa [h.status])]
      exact .done h

/-- Whatever nudges a player, it goes on alike under both directors. -/
theorem nudge (turns : Nat) (a : Nudge) (h : Along T p q) :
    Outcome.Agrees (Along T) (p.nudge turns a) (q.nudge turns a) := by
  have hnudged := nudged_under q.director a (p := p)
  rw [← h.under] at hnudged
  rw [nudge_eq, nudge_eq, hnudged]
  cases hp : p.nudged a with
  | error e => exact .failed e h
  | ok r =>
    obtain ⟨hwaits, index, events, rfl⟩ := nudged_eq_ok hp
    refine hT.run turns ?_
    cases h with
    | plays hscript hd => exact .plays hscript hd
    | rests d _ hidle => exact absurd hwaits hidle

end Tandem

end

end Fabula.Player
