import Fabula.Proofs.Player.Turns

/-!
# Failures

A turn of a script that was compiled fails for one of three reasons, whoever directs it: a text or
a condition is malformed, a speaker stands for nobody, or the director cannot lead on.
-/

namespace Fabula

/-- The error of a text or of a condition. -/
inductive RunError.Malformed : RunError → Prop
  | operator (expression : String) : Malformed (.unknownOperator expression)
  | braces (content : String) : Malformed (.unbalancedBraces content)

namespace Player

open Script (Sentence Say Conditional Grown)

variable {D : Type}

/-- A director answers where to go, by an outlet or at the end of a script, and is then `d'`. -/
inductive Answers [Director D] (d : D) : Except ChainError Transfer → D → Prop
  | left {r : Except ChainError Transfer} {d' : D} (outlet : String) :
      Director.leave d outlet = (r, d') → Answers d r d'
  | finished {r : Except ChainError Transfer} {d' : D} : Director.finished d = (r, d') →
      Answers d r d'

/-- Why a turn of the script fails under a director, and leaves the player as `q`. -/
inductive Trips [Director D] (script : Script) (d : D) (q : Player D) : RunError → Prop
  | malformed {e : RunError} : e.Malformed → q.director = d → Trips script d q e
  | unbound {line : Say} (index : Nat) (sentence : String) : .say line ∈ script.sentences →
      line.speaker ≠ "" → Director.character? d script line.speaker = none → q.director = d →
      Trips script d q (.unknownCharacter line.speaker index sentence)
  | led {e : ChainError} {d' : D} : Answers d (.error e) d' → Trips script d q (.chain e)

section
variable {script : Script} {p q : Player D} {e : RunError}

theorem malformed_showText {content : String} (h : p.showText content = .error (e, q)) :
    e.Malformed := by
  unfold showText at h
  split at h
  · simp at h
  · obtain ⟨rfl, _⟩ := Prod.mk.inj (Except.error.inj h)
    exact .braces content

theorem malformed_decide {expression : String} (h : p.decide expression = .error e) :
    e.Malformed := by
  unfold decide at h
  split at h
  · simp at h
  · obtain rfl := Except.error.inj h
    exact .operator expression

theorem malformed_firstHolding {branches : List Script.Branch}
    (h : p.firstHolding branches = .error e) : e.Malformed := by
  induction branches with
  | nil => simp [firstHolding] at h
  | cons b rest ih =>
    simp only [firstHolding] at h
    split at h
    · simp at h
    · exact ih h
    · rename_i hdecide
      obtain rfl := Except.error.inj h
      exact malformed_decide hdecide

theorem malformed_entry {own : Nat} {c : Conditional} (h : p.entry own c = .error e) :
    e.Malformed := by
  unfold entry at h
  split at h
  · simp at h
  · cases hfirst : p.firstHolding c.branches with
    | ok target => simp [hfirst, Except.map] at h
    | error f =>
      rw [hfirst] at h
      obtain rfl := Except.error.inj h
      exact malformed_firstHolding hfirst
  · rename_i hdecide
    obtain rfl := Except.error.inj h
    exact malformed_decide hdecide

variable [Director D]

theorem trips_executeSay {line : Say} (hscript : p.script = some script)
    (hline : .say line ∈ script.sentences) (h : p.executeSay line = .error (e, q)) :
    q.script = p.script ∧ Trips script p.director q e := by
  obtain ⟨events, hq⟩ := executeSay_eq_error h
  have hdirector : q.director = p.director := by rw [hq]
  refine ⟨by rw [hq], ?_⟩
  unfold executeSay at h
  by_cases hspeaker : line.speaker = ""
  · rw [if_pos hspeaker] at h
    exact .malformed (malformed_showText h) hdirector
  · rw [if_neg hspeaker, setCharacter, hscript, Option.bind_some] at h
    cases hcharacter : Director.character? p.director script line.speaker with
    | some name =>
      rw [hcharacter] at h
      exact .malformed (malformed_showText h) hdirector
    | none =>
      rw [hcharacter] at h
      obtain ⟨rfl, rfl⟩ := Prod.mk.inj (Except.error.inj h)
      exact .unbound _ _ hline hspeaker hcharacter rfl

theorem trips_leave {outlet : String} (h : p.leave outlet = .error (e, q)) :
    q.script = p.script ∧ Trips script p.director q e := by
  unfold leave at h
  rcases hleave : Director.leave p.director outlet with ⟨f | t, d⟩ <;> rw [hleave] at h
  · obtain ⟨rfl, rfl⟩ := Prod.mk.inj (Except.error.inj h)
    exact ⟨rfl, .led (.left outlet hleave)⟩
  · simp at h

theorem trips_atEnd (h : p.atEnd = .error (e, q)) : q.script = p.script ∧ Trips script p.director q e := by
  unfold atEnd at h
  rcases hfinished : Director.finished p.director with ⟨f | t, d⟩ <;> rw [hfinished] at h
  · obtain ⟨rfl, rfl⟩ := Prod.mk.inj (Except.error.inj h)
    exact ⟨rfl, .led (.finished hfinished)⟩
  · cases t <;> simp at h

theorem trips_execute {s : Sentence} (hg : Grown script.sentences) (hscript : p.script = some script)
    (hs : s ∈ script.sentences) (h : p.execute s = .error (e, q)) :
    q.script = p.script ∧ Trips script p.director q e := by
  cases s with
  | say line => exact trips_executeSay hscript hs h
  | conditional c =>
    simp only [execute, executeConditional] at h
    split at h
    · simp at h
    · rename_i hentry
      obtain ⟨rfl, rfl⟩ := Prod.mk.inj (Except.error.inj h)
      exact ⟨rfl, .malformed (malformed_entry hentry) rfl⟩
  | jump label =>
    cases label with
    | some label => exact trips_leave h
    | none => exact trips_leave h
  | menu m => simp [execute] at h
  | close => simp [execute] at h
  | option text own => simp [execute] at h
  | branch condition own => simp [execute] at h
  | otherwise own => simp [execute] at h
  | command c => exact absurd hs (hg.no_command c)

theorem trips_turn (hg : Grown script.sentences) (hscript : p.script = some script)
    (h : p.turn = .error (e, q)) : q.script = p.script ∧ Trips script p.director q e := by
  cases hs : script.sentence? p.index with
  | none =>
    simp only [turn, hscript, hs] at h
    exact trips_atEnd h
  | some s =>
    cases hr : p.redirect? script s with
    | some target => simp [turn_of_redirect hscript hs hr] at h
    | none =>
      rw [turn_of_execute hscript hs hr] at h
      cases hexecute : execute { p with moved := false } s with
      | ok r => simp [hexecute, Except.map] at h
      | error failure =>
        rw [hexecute] at h
        obtain rfl := Except.error.inj h
        exact trips_execute (p := { p with moved := false }) hg hscript (List.mem_of_getElem? hs)
          hexecute

end

end Player

end Fabula
