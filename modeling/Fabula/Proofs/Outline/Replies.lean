import Fabula.Proofs.Outline.Play

/-!
# What a session replies

A session tells what its player's next turn leads to, and in the end a player that waits replies
as what it accepts, and a player that is done refuses every request.
-/

namespace Fabula

namespace Player.Outcome

variable {D : Type}

def reply (o : Outcome D) : Script.Reply := ⟨o.player.status, o.error?, o.player.events⟩

end Player.Outcome

namespace Script

open Player (Request Outcome outcomes answers speakerEvent)

section Told
variable {script : Script} {p q : Player SingleScript} {turns : Nat}

/-- The replies of a session that begins with a run of this player. -/
def told (turns : Nat) (p : Player SingleScript) (requests : List Request) : List Reply :=
  (outcomes turns p requests).map Outcome.reply

theorem told_of_turn (hg : Grown script.sentences) (hturns : script.size < turns)
    (hscript : p.script = some script) (hrunning : p.status = .running) (h : p.turn = .ok q)
    (rs : List Request) : told turns p rs = told turns q rs := by
  have hrun := (Player.run_of_turn hg hturns hscript hrunning h).1
  rw [told, told, outcomes, outcomes, hrun]

theorem replies_refused {o : Outcome SingleScript} (hr : o.player.status ≠ .suspended)
    (rs : List Request) : (answers turns o rs).map Outcome.reply =
      refused o.player.status o.player.events rs := by
  induction rs generalizing o with
  | nil => rfl
  | cons r rs ih =>
    have hrefuse : o.player.resume r = .error .notRunning := by
      cases r <;> simp [Player.resume, hr]
    rw [answers, Player.answer_of_refuse hrefuse, List.map_cons]
    exact congrArg (_ :: ·) (ih (o := .failed .notRunning o.player) hr)

theorem told_of_finish (hscript : p.script = some script) (hrunning : p.status = .running)
    (hend : script.sentence? p.index = none) (hturns : 0 < turns) (rs : List Request) :
    told turns p rs = finished p.events rs := by
  have hrun : Player.run turns p = .done p.finish := by
    cases turns with
    | zero => omega
    | succ turns =>
      simp only [Player.run, if_pos hrunning, Player.turn_at_end hscript hend]
      exact Player.run_of_not_running (by simp [Player.finish])
  rw [told, outcomes, hrun, List.map_cons,
    replies_refused (by simp [Outcome.player, Player.finish])]
  rfl

theorem told_of_failure (hrunning : p.status = .running) {e : RunError}
    (h : p.turn = .error (e, q)) (hturns : 0 < turns) (rs : List Request) :
    told turns p rs = failed e q.events rs := by
  have hrun : Player.run turns p = .failed e q.abort := by
    cases turns with
    | zero => omega
    | succ turns => simp only [Player.run, if_pos hrunning, h]
  rw [told, outcomes, hrun, List.map_cons,
    replies_refused (by simp [Outcome.player, Player.abort])]
  rfl

theorem told_of_wait (hw : p.status = .suspended) {accept : Request → Except RunError Sequel}
    (hok : ∀ r next, accept r = .ok next →
      ∃ q, p.resume r = .ok q ∧ ∀ rs, told turns q rs = next p.events rs)
    (hno : ∀ r e, accept r = .error e → p.resume r = .error e) (rs : List Request) :
    told turns p rs = wait accept p.events rs := by
  -- a request that is refused leaves the player as it was, but not the outcome
  have hheard : ∀ o : Outcome SingleScript, o.player = p →
      (answers turns o rs).map Outcome.reply = hear accept p.events rs := by
    induction rs with
    | nil => exact fun o _ => rfl
    | cons r rs ih =>
      rintro o rfl
      rw [answers, hear]
      cases ha : accept r with
      | ok next =>
        obtain ⟨q, hq, htold⟩ := hok r next ha
        rw [Player.answer_of_resume hq]
        exact htold rs
      | error e =>
        rw [Player.answer_of_refuse (hno r e ha), List.map_cons]
        have hreply : Outcome.reply (.failed e o.player) =
            ⟨.suspended, some e, o.player.events⟩ := by rw [← hw]; rfl
        rw [hreply, ih (.failed e o.player) rfl]
  have hrun : Player.run turns p = .done p := Player.run_of_not_running (by simp [hw])
  have hreply : Outcome.reply (.done p) = ⟨.suspended, none, p.events⟩ := by rw [← hw]; rfl
  rw [told, outcomes, hrun, List.map_cons, hheard _ rfl, hreply, wait]

end Told

end Script

end Fabula
