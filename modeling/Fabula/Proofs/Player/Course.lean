import Fabula.Proofs.Player.Turns

/-!
# The course of a player

What a player has shown, and whom it will tell of its end, does not decide how it goes on. Two
players that agree in all the rest take the same turns.
-/

namespace Fabula.Player

open Script (Call Sentence Say Conditional)

variable {D : Type}

/-- What decides how a player goes on. -/
structure Course (D : Type) where
  director : D
  store : Store
  script : Option Script
  index : Nat
  scopes : List Nat
  status : Status
  moved : Bool

def course (p : Player D) : Course D where
  director := p.director
  store := p.store
  script := p.script
  index := p.index
  scopes := p.scopes
  status := p.status
  moved := p.moved

theorem exists_of_course {p q : Player D} (h : p.course = q.course) :
    ∃ runs awaited completed observers events,
      q = { p with runs, awaited, completed, observers, events } := by
  refine ⟨q.runs, q.awaited, q.completed, q.observers, q.events, ?_⟩
  cases p
  cases q
  simp only [course, Course.mk.injEq] at h
  obtain ⟨rfl, rfl, rfl, rfl, rfl, rfl, rfl⟩ := h
  rfl

/-- Both attempts fail, or they lead to players on the same course. -/
inductive Abreast : Attempt D → Attempt D → Prop
  | ok {p q : Player D} : p.course = q.course → Abreast (.ok p) (.ok q)
  | error (e f : RunError × Player D) : Abreast (.error e) (.error f)

theorem Abreast.andThen {a b : Attempt D} {f : Player D → Attempt D} (h : Abreast a b)
    (hf : ∀ p q : Player D, p.course = q.course → Abreast (f p) (f q)) :
    Abreast (a.andThen f) (b.andThen f) := by
  cases h with
  | ok hcourse => exact hf _ _ hcourse
  | error e f => exact .error e f

section
variable {p q : Player D}

theorem abreast_showText (h : p.course = q.course) (content : String) :
    Abreast (p.showText content) (q.showText content) := by
  obtain ⟨_, _, _, _, _, rfl⟩ := exists_of_course h
  unfold showText
  dsimp only
  cases Template.render? p.store content with
  | none => exact .error _ _
  | some text => exact .ok rfl

theorem abreast_executeConditional (h : p.course = q.course) (c : Conditional) :
    Abreast (p.executeConditional c) (q.executeConditional c) := by
  have hentry : (q.pushScope q.index).entry q.index c =
      (p.pushScope p.index).entry p.index c := by
    obtain ⟨_, _, _, _, _, rfl⟩ := exists_of_course h
    exact entry_congr (by rfl) p.index c
  unfold executeConditional
  simp only [hentry]
  cases (p.pushScope p.index).entry p.index c with
  | error e => exact .error _ _
  | ok target =>
    obtain ⟨_, _, _, _, _, rfl⟩ := exists_of_course h
    exact .ok rfl

theorem settle_course (h : p.course = q.course) : p.settle.course = q.settle.course := by
  obtain ⟨_, _, _, _, _, rfl⟩ := exists_of_course h
  unfold settle
  dsimp only
  split <;> rfl

variable [Director D]

theorem abreast_leave (h : p.course = q.course) (outlet : String) :
    Abreast (p.leave outlet) (q.leave outlet) := by
  obtain ⟨_, _, _, _, _, rfl⟩ := exists_of_course h
  unfold leave
  dsimp only
  rcases Director.leave p.director outlet with ⟨e | t, d⟩
  · exact .error _ _
  · cases t <;> exact .ok rfl

theorem abreast_setCharacter (h : p.course = q.course) (key extra : String) :
    Abreast (p.setCharacter key extra) (q.setCharacter key extra) := by
  obtain ⟨_, _, _, _, _, rfl⟩ := exists_of_course h
  unfold setCharacter
  dsimp only
  cases p.script.bind fun script => Director.character? p.director script key with
  | none => exact .error _ _
  | some name => exact .ok rfl

theorem abreast_executeSay (h : p.course = q.course) (line : Say) :
    Abreast (p.executeSay line) (q.executeSay line) := by
  unfold executeSay
  apply Abreast.andThen
  · split
    · obtain ⟨_, _, _, _, _, rfl⟩ := exists_of_course h
      exact .ok rfl
    · exact abreast_setCharacter h line.speaker line.extra
  · intro r s hcourse
    exact abreast_showText hcourse line.text

theorem abreast_perform (h : p.course = q.course) (name : String) (call : Call) :
    Abreast (perform name p call) (perform name q call) := by
  cases call with
  | jump label => exact abreast_leave h label
  | next => exact abreast_leave h defaultOutlet
  | character key extra => exact abreast_setCharacter h key extra
  | text content => exact abreast_showText h content
  | pop =>
    obtain ⟨_, _, _, _, _, rfl⟩ := exists_of_course h
    exact abreast_showText (by rfl) _
  | index =>
    obtain ⟨_, _, _, _, _, rfl⟩ := exists_of_course h
    exact abreast_showText (by rfl) _
  | fail message => exact .error _ _
  | unknown piece => exact .error _ _
  | _ =>
    obtain ⟨_, _, _, _, _, rfl⟩ := exists_of_course h
    exact .ok rfl

theorem abreast_performAll (h : p.course = q.course) (name : String) (calls : List Call) :
    Abreast (performAll name calls p) (performAll name calls q) := by
  induction calls generalizing p q with
  | nil => exact .ok h
  | cons call rest ih =>
    have hother : Abreast ((perform name p call).andThen (performAll name rest))
        ((perform name q call).andThen (performAll name rest)) :=
      (abreast_perform h name call).andThen fun _ _ => ih
    cases call with
    | guard condition =>
      have hstore : q.store = p.store := (congrArg Course.store h).symm
      unfold performAll
      rw [decide_congr hstore]
      cases p.decide condition with
      | error e => exact .error _ _
      | ok holds =>
        cases holds with
        | true => exact ih h
        | false => exact .ok h
    | _ => exact hother

theorem abreast_execute (h : p.course = q.course) (s : Sentence) :
    Abreast (p.execute s) (q.execute s) := by
  cases s with
  | say line => exact abreast_executeSay h line
  | conditional c => exact abreast_executeConditional h c
  | jump label =>
    cases label with
    | some label => exact abreast_leave h label
    | none => exact abreast_leave h defaultOutlet
  | command c => exact abreast_performAll h c.name c.steps
  | _ =>
    obtain ⟨_, _, _, _, _, rfl⟩ := exists_of_course h
    exact .ok rfl

theorem abreast_atEnd (h : p.course = q.course) : Abreast p.atEnd q.atEnd := by
  obtain ⟨_, _, _, _, _, rfl⟩ := exists_of_course h
  unfold atEnd
  dsimp only
  rcases Director.finished p.director with ⟨e | t, d⟩
  · exact .error _ _
  · cases t <;> exact .ok rfl

theorem abreast_turn (h : p.course = q.course) : Abreast p.turn q.turn := by
  cases hscript : p.script with
  | none =>
    have hidle : ∀ r : Player D, r.script = none → r.turn = .ok r.finish := by
      intro r hr
      simp only [turn, hr]
    have hq : q.script = none := (congrArg Course.script h).symm.trans hscript
    rw [hidle p hscript, hidle q hq]
    obtain ⟨_, _, _, _, _, rfl⟩ := exists_of_course h
    exact .ok rfl
  | some script =>
    have hq : q.script = some script ∧ q.index = p.index := by
      obtain ⟨_, _, _, _, _, rfl⟩ := exists_of_course h
      exact ⟨hscript, rfl⟩
    cases hs : script.sentence? p.index with
    | none =>
      have hend := abreast_atEnd h
      simpa only [turn, hscript, hq.1, hq.2, hs] using hend
    | some s =>
      have hredirect : q.redirect? script s = p.redirect? script s := by
        obtain ⟨_, _, _, _, _, rfl⟩ := exists_of_course h
        rfl
      have hsq : script.sentence? q.index = some s := by rw [hq.2, hs]
      cases hr : p.redirect? script s with
      | some target =>
        rw [turn_of_redirect hscript hs hr, turn_of_redirect hq.1 hsq (hredirect.trans hr)]
        obtain ⟨_, _, _, _, _, rfl⟩ := exists_of_course h
        exact .ok rfl
      | none =>
        rw [turn_of_execute hscript hs hr, turn_of_execute hq.1 hsq (hredirect.trans hr)]
        have hexecute : Abreast (execute { p with moved := false } s)
            (execute { q with moved := false } s) := by
          obtain ⟨_, _, _, _, _, rfl⟩ := exists_of_course h
          exact abreast_execute (by rfl) s
        generalize execute { p with moved := false } s = a at hexecute
        generalize execute { q with moved := false } s = b at hexecute
        cases hexecute with
        | ok hcourse => exact .ok (settle_course hcourse)
        | error e f => exact .error e f

end

/-- Whether the turns granted were enough. -/
def Outcome.returned : Outcome D → Bool
  | .unfinished _ => false
  | _ => true

section
variable [Director D] {p q : Player D}

theorem returned_of_course (h : p.course = q.course) (turns : Nat) :
    (run turns p).returned = (run turns q).returned := by
  induction turns generalizing p q with
  | zero =>
    have hstatus : q.status = p.status := (congrArg Course.status h).symm
    simp only [run, hstatus]
    split <;> rfl
  | succ turns ih =>
    have hstatus : q.status = p.status := (congrArg Course.status h).symm
    simp only [run, hstatus]
    split
    · have hturn := abreast_turn h
      generalize p.turn = a at hturn
      generalize q.turn = b at hturn
      cases hturn with
      | ok hcourse => exact ih hcourse
      | error e f => rfl
    · rfl

/-- Turns that were not needed change nothing. -/
theorem run_add_of_returned {turns : Nat} (h : (run turns p).returned = true) (more : Nat) :
    run (turns + more) p = run turns p := by
  induction turns generalizing p with
  | zero =>
    have hrunning : p.status ≠ .running := by
      intro hrunning
      simp [run, hrunning, Outcome.returned] at h
    rw [run_of_not_running hrunning, run_of_not_running hrunning]
  | succ turns ih =>
    rw [Nat.add_right_comm]
    by_cases hrunning : p.status = .running
    · simp only [run, if_pos hrunning] at h ⊢
      cases hturn : p.turn with
      | error failure => rfl
      | ok next =>
        rw [hturn] at h
        exact ih h
    · rw [run_of_not_running hrunning, run_of_not_running hrunning]

end

end Fabula.Player
