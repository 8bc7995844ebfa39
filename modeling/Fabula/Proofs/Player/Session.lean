import Fabula.Player.Host

/-!
# Sessions

A session is a run and the requests that a host makes after it: to proceed or to choose an
option. `outcomes` are the ends of its requests, one for each, and `visits` are the indices of the
sentences that it executes, in order. A sentence whose turn comes only to send control on to the
end of a block is not executed.
-/

namespace Fabula.Player

open Script (Menu MenuOption)

variable {D : Type}

/-- What a host asks of a player that waits. -/
inductive Request where
  | proceed
  | choose (option : Nat)
deriving DecidableEq, Repr

/-- The player that a request sets running again, unless the player refuses it. -/
def resume (p : Player D) : Request → Except RunError (Player D)
  | .proceed =>
    if p.status = .suspended then
      let q := if p.waitingMenu?.isSome then p.shows .clearMenu else p
      .ok { q with index := q.index + 1, status := .running }
    else .error .notRunning
  | .choose k =>
    if p.status = .suspended then
      match p.waitingMenu? with
      | none => .error .noActiveMenu
      | some m =>
        match m.options[k]? with
        | none => .error (.invalidChoice k m.options.length)
        | some o => .ok { p.shows .clearMenu with index := o.target, status := .running }
    else .error .notRunning

/-- A player at the first sentence of a script. -/
def started (p : Player D) (script : Script) (callback : Bool) : Player D :=
  { (p.begin callback).load script with status := .running }

/-- A player that is set going again goes on after its sentence, or after the marker of an
option. -/
theorem resume_eq_ok {p q : Player D} {r : Request} (h : p.resume r = .ok q) :
    (∃ events, q = { p with index := p.index + 1, status := .running, events }) ∨
      ∃ m o events, p.waitingMenu? = some m ∧ o ∈ m.options ∧
        q = { p with index := o.target, status := .running, events } := by
  cases r with
  | proceed =>
    simp only [resume] at h
    split at h
    · obtain rfl := Except.ok.inj h
      split
      · exact .inl ⟨_, rfl⟩
      · exact .inl ⟨_, rfl⟩
    · simp at h
  | choose k =>
    simp only [resume] at h
    split at h
    · split at h
      · simp at h
      · rename_i m hm
        split at h
        · simp at h
        · rename_i o ho
          obtain rfl := Except.ok.inj h
          exact .inr ⟨m, o, _, hm, List.mem_of_getElem? ho, rfl⟩
    · simp at h

theorem suspended_of_resume {p q : Player D} {r : Request} (h : p.resume r = .ok q) :
    p.status = .suspended := by
  cases r with
  | proceed =>
    simp only [resume] at h
    split at h
    · assumption
    · simp at h
  | choose k =>
    simp only [resume] at h
    split at h
    · assumption
    · simp at h

theorem resume_running {p q : Player D} {r : Request} (h : p.resume r = .ok q) :
    p.status = .suspended ∧ q.status = .running := by
  refine ⟨suspended_of_resume h, ?_⟩
  rcases resume_eq_ok h with ⟨_, rfl⟩ | ⟨_, _, _, _, _, rfl⟩ <;> rfl

theorem resume_keeps {p q : Player D} {r : Request} (h : p.resume r = .ok q) :
    q.script = p.script ∧ q.director = p.director ∧ q.store = p.store := by
  rcases resume_eq_ok h with ⟨_, rfl⟩ | ⟨_, _, _, _, _, rfl⟩ <;> exact ⟨rfl, rfl, rfl⟩

section Resume
variable {p : Player D} {m : Menu} {k : Nat}

theorem waitingMenu?_eq_some (h : p.waitingMenu? = some m) :
    p.status = .suspended ∧ p.scopes.head? = some p.index ∧ p.sentence? = some (.menu m) := by
  unfold waitingMenu? at h
  split at h
  · rename_i hw
    split at h
    · rename_i hm
      exact ⟨hw.1, hw.2, Option.some.inj h ▸ hm⟩
    · simp at h
  · simp at h

theorem resume_proceed_of_menu (h : p.waitingMenu? = some m) : p.resume .proceed =
    .ok { p.shows .clearMenu with index := p.index + 1, status := .running } := by
  simp only [resume, if_pos (waitingMenu?_eq_some h).1, h]
  rfl

theorem resume_proceed_of_line (hw : p.status = .suspended) (h : p.waitingMenu? = none) :
    p.resume .proceed = .ok { p with index := p.index + 1, status := .running } := by
  simp only [resume, if_pos hw, h]
  rfl

theorem resume_choose_of_menu {o : MenuOption} (h : p.waitingMenu? = some m)
    (ho : m.options[k]? = some o) : p.resume (.choose k) =
      .ok { p.shows .clearMenu with index := o.target, status := .running } := by
  simp only [resume, if_pos (waitingMenu?_eq_some h).1, h, ho]

theorem resume_choose_of_missing (h : p.waitingMenu? = some m) (ho : m.options[k]? = none) :
    p.resume (.choose k) = .error (.invalidChoice k m.options.length) := by
  simp only [resume, if_pos (waitingMenu?_eq_some h).1, h, ho]

theorem resume_choose_of_line (hw : p.status = .suspended) (h : p.waitingMenu? = none) :
    p.resume (.choose k) = .error .noActiveMenu := by
  simp only [resume, if_pos hw, h]

end Resume

section
variable [Director D]

def answer (turns : Nat) (p : Player D) : Request → Outcome D
  | .proceed => p.proceed turns
  | .choose k => p.choose turns k

def answers (turns : Nat) : Outcome D → List Request → List (Outcome D)
  | _, [] => []
  | o, r :: rs => o.player.answer turns r :: answers turns (o.player.answer turns r) rs

def outcomes (turns : Nat) (p : Player D) (requests : List Request) : List (Outcome D) :=
  run turns p :: answers turns (run turns p) requests

/-- The sentence that the next turn executes. -/
def executing? (p : Player D) : Option Nat :=
  p.script.bind fun script =>
    (script.sentence? p.index).bind fun current =>
      if p.redirect? script current = none then some p.index else none

def runVisits : Nat → Player D → List Nat
  | 0, _ => []
  | turns + 1, p =>
    if p.status = .running then
      p.executing?.toList ++
        match p.turn with
        | .ok next => runVisits turns next
        | .error _ => []
    else []

def answerVisits (turns : Nat) : Outcome D → List Request → List Nat
  | _, [] => []
  | o, r :: rs =>
    (match o.player.resume r with
      | .ok q => runVisits turns q
      | .error _ => []) ++ answerVisits turns (o.player.answer turns r) rs

def visits (turns : Nat) (p : Player D) (requests : List Request) : List Nat :=
  runVisits turns p ++ answerVisits turns (run turns p) requests

/-- The ends of a play and of the requests after it. -/
def session (turns : Nat) (p : Player D) (script : Script) (callback : Bool)
    (requests : List Request) : List (Outcome D) :=
  p.play turns script callback :: answers turns (p.play turns script callback) requests

theorem session_eq (turns : Nat) (p : Player D) (script : Script) (callback : Bool)
    (requests : List Request) : session turns p script callback requests =
      outcomes turns (p.started script callback) requests := rfl

theorem answer_of_resume {turns : Nat} {p q : Player D} {r : Request} (h : p.resume r = .ok q) :
    p.answer turns r = run turns q := by
  cases r with
  | proceed =>
    simp only [resume] at h
    split at h
    · rename_i hs
      obtain rfl := Except.ok.inj h
      simp only [answer, proceed, if_pos hs]
      rfl
    · simp at h
  | choose k =>
    simp only [resume] at h
    split at h
    · rename_i hs
      split at h
      · simp at h
      · rename_i m hm
        split at h
        · simp at h
        · rename_i o ho
          obtain rfl := Except.ok.inj h
          simp only [answer, choose, if_pos hs, hm, ho]
          rfl
    · simp at h

theorem answer_of_refuse {turns : Nat} {p : Player D} {r : Request} {e : RunError}
    (h : p.resume r = .error e) : p.answer turns r = .failed e p := by
  cases r with
  | proceed =>
    simp only [resume] at h
    split at h
    · simp at h
    · rename_i hs
      obtain rfl := Except.error.inj h
      simp only [answer, proceed, if_neg hs]
  | choose k =>
    simp only [resume] at h
    split at h
    · rename_i hs
      split at h
      · rename_i hm
        obtain rfl := Except.error.inj h
        simp only [answer, choose, if_pos hs, hm]
      · rename_i m hm
        split at h
        · rename_i ho
          obtain rfl := Except.error.inj h
          simp only [answer, choose, if_pos hs, hm, ho]
        · simp at h
    · rename_i hs
      obtain rfl := Except.error.inj h
      simp only [answer, choose, if_neg hs]

theorem visits_cons_of_resume {turns : Nat} {p q : Player D} {r : Request} {rs : List Request}
    (h : (run turns p).player.resume r = .ok q) :
    visits turns p (r :: rs) = runVisits turns p ++ visits turns q rs := by
  rw [visits, answerVisits, h, answer_of_resume h, visits]

theorem run_of_not_running {turns : Nat} {p : Player D} (h : p.status ≠ .running) :
    run turns p = .done p := by
  cases turns <;> simp [run, h]

theorem runVisits_of_not_running {turns : Nat} {p : Player D} (h : p.status ≠ .running) :
    runVisits turns p = [] := by
  cases turns <;> simp [runVisits, h]

/-- What every turn and every request keep, of a player and the sentences executed so far. -/
structure Kept (Inv : Player D → List Nat → Prop) : Prop where
  turn : ∀ p q seen, p.status = .running → Inv p seen → p.turn = .ok q →
    Inv q (seen ++ p.executing?.toList)
  failure : ∀ p q e seen, p.status = .running → Inv p seen → p.turn = .error (e, q) →
    Inv q.abort (seen ++ p.executing?.toList)
  resume : ∀ p q r seen, Inv p seen → p.resume r = .ok q → Inv q seen

namespace Kept
variable {Inv : Player D → List Nat → Prop}

theorem run (hk : Kept Inv) (turns : Nat) {p : Player D} {seen : List Nat} (h : Inv p seen) :
    Inv (run turns p).player (seen ++ runVisits turns p) := by
  induction turns generalizing p seen with
  | zero =>
    simp only [Player.run, runVisits, List.append_nil]
    split <;> exact h
  | succ turns ih =>
    by_cases hrunning : p.status = .running
    · simp only [Player.run, runVisits, if_pos hrunning]
      cases hturn : p.turn with
      | ok q =>
        have hnext := ih (hk.turn p q seen hrunning h hturn)
        rwa [List.append_assoc] at hnext
      | error failure =>
        obtain ⟨e, q⟩ := failure
        rw [List.append_nil]
        exact hk.failure p q e seen hrunning h hturn
    · rw [run_of_not_running hrunning, runVisits_of_not_running hrunning, List.append_nil]
      exact h

theorem answer (hk : Kept Inv) (turns : Nat) {p : Player D} {seen : List Nat} (h : Inv p seen)
    (r : Request) : Inv (p.answer turns r).player
      (seen ++ match p.resume r with
        | .ok q => runVisits turns q
        | .error _ => []) := by
  cases hr : p.resume r with
  | ok q =>
    rw [answer_of_resume hr]
    exact hk.run turns (hk.resume p q r seen h hr)
  | error e =>
    rw [answer_of_refuse hr, List.append_nil]
    exact h

theorem answers (hk : Kept Inv) (turns : Nat) {o : Outcome D} {seen : List Nat}
    (h : Inv o.player seen) (rs : List Request) :
    (∀ a ∈ answers turns o rs, ∃ later, Inv a.player later) ∧
      ∃ p, Inv p (seen ++ answerVisits turns o rs) := by
  induction rs generalizing o seen with
  | nil => exact ⟨by simp [Player.answers], o.player, by simpa [answerVisits] using h⟩
  | cons r rs ih =>
    obtain ⟨hall, p, hp⟩ := ih (hk.answer turns h r)
    constructor
    · intro a ha
      rcases List.mem_cons.mp ha with rfl | ha
      · exact ⟨_, hk.answer turns h r⟩
      · exact hall a ha
    · exact ⟨p, by rwa [List.append_assoc] at hp⟩

/-- An invariant holds of every outcome of a session and of all that the session executes. -/
theorem session (hk : Kept Inv) (turns : Nat) {p : Player D} (h : Inv p [])
    (rs : List Request) :
    (∀ o ∈ outcomes turns p rs, ∃ seen, Inv o.player seen) ∧
      ∃ q, Inv q (visits turns p rs) := by
  have hrun := hk.run turns h
  rw [List.nil_append] at hrun
  obtain ⟨hall, hlast⟩ := hk.answers turns hrun rs
  constructor
  · intro o ho
    rcases List.mem_cons.mp ho with rfl | ho
    · exact ⟨_, hrun⟩
    · exact hall o ho
  · exact hlast

end Kept

end

end Fabula.Player
