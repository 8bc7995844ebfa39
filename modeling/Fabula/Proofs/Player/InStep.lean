import Fabula.Proofs.Player.Turns
import Fabula.Proofs.Script.Nesting

/-!
# Scopes and blocks

A player is in step with its script when its open scopes are the blocks around the sentence whose
turn it is; once that sentence waits, a block that it opens is around it as well. Only a jump to a
marker that stands inside some other block puts a player out of step, so a player of a script
whose markers stand directly in their blocks is always in step.
-/

namespace Fabula

namespace Player

open Script (Sentence Grown Direct DirectAt lines openBefore)

/-- The scopes of a player that runs or waits are the blocks around its sentence. -/
structure InStep (script : Script) (p : Player SingleScript) : Prop where
  running : p.status = .running →
    p.script = some script ∧ p.scopes = openBefore (lines script.sentences) p.index
  waiting : p.status = .suspended →
    p.script = some script ∧ p.scopes = openBefore (lines script.sentences) (p.index + 1)

section
variable {script : Script} {p q : Player SingleScript}

theorem InStep.of_running (hrunning : p.status = .running) (hscript : p.script = some script)
    (h : p.scopes = openBefore (lines script.sentences) p.index) : InStep script p :=
  ⟨fun _ => ⟨hscript, h⟩, fun hw => by simp [hw] at hrunning⟩

theorem InStep.of_waiting (hw : p.status = .suspended) (hscript : p.script = some script)
    (h : p.scopes = openBefore (lines script.sentences) (p.index + 1)) : InStep script p :=
  ⟨fun hrunning => by simp [hw] at hrunning, fun _ => ⟨hscript, h⟩⟩

theorem InStep.of_over (hr : p.status ≠ .running) (hw : p.status ≠ .suspended) :
    InStep script p :=
  ⟨fun h => absurd h hr, fun h => absurd h hw⟩

theorem inStep_started (p : Player SingleScript) (script : Script) (callback : Bool) :
    InStep script (p.started script callback) :=
  .of_running rfl rfl rfl

theorem entry_scopes (hg : Grown script.sentences) {own target : Nat} {c : Script.Conditional}
    (hc : script.sentences[own]? = some (.conditional c))
    (hd : DirectAt script.sentences own target) (h : p.entry own c = .ok target) :
    openBefore (lines script.sentences) target =
      own :: openBefore (lines script.sentences) own := by
  rcases entry_eq_ok h with rfl | ⟨l, hl⟩ | rfl
  · exact Script.openBefore_opener hc rfl
  · obtain ⟨j, s, hj, ho, _, rfl⟩ := (hg.attached.mem_table hc rfl).mp hl
    exact Script.openBefore_body hj ho (hd j s rfl hj ho)
  · cases he : c.exit with
    | none => exact Script.openBefore_opener hc rfl
    | some e =>
      have hexit : Script.exitAt script.sentences own = some e := by
        rw [Script.exitAt, hc]
        exact he
      exact Script.openBefore_exit hg.matched hexit

/-- A turn keeps a player in step, unless it enters a body by a marker that is not direct. -/
theorem Turns.inStep (ht : Turns script p q) (hg : Grown script.sentences)
    (hrunning : p.status = .running) (h : InStep script p)
    (hd : DirectAt script.sentences p.index q.index) : InStep script q := by
  obtain ⟨hscript, hscopes⟩ := h.running hrunning
  cases ht with
  | ended => exact .of_over (by simp [finish]) (by simp [finish])
  | redirected hs hr =>
    obtain ⟨own, hhead, _, hexit⟩ := redirect?_exit hr
    refine .of_running hrunning hscript ?_
    rw [hscopes] at hhead
    show p.scopes = _
    rw [hscopes, Script.openBefore_of_head hhead, Script.openBefore_exit hg.matched hexit]
  | said events hs =>
    refine .of_waiting rfl hscript ?_
    rw [Script.openBefore_plain hs rfl (by simp [Sentence.line])]
    exact hscopes
  | offered hs =>
    refine .of_waiting rfl hscript ?_
    rw [Script.openBefore_opener hs rfl]
    exact congrArg (p.index :: ·) hscopes
  | entered hs he =>
    refine .of_running hrunning hscript ?_
    rw [entry_scopes hg hs hd he]
    exact congrArg (p.index :: ·) hscopes
  | closed hs =>
    refine .of_running hrunning hscript ?_
    rw [Script.openBefore_close hs]
    exact congrArg List.tail hscopes
  | jumped hs =>
    refine .of_running hrunning hscript ?_
    rw [Script.openBefore_plain hs rfl (by simp [Sentence.line])]
    exact hscopes
  | marked hs ho _ =>
    obtain ⟨hopener, hclose⟩ := Script.marker_plain ho
    refine .of_running hrunning hscript ?_
    rw [Script.openBefore_plain hs hopener hclose]
    exact hscopes

theorem InStep.resume (h : InStep script p) (hg : Grown script.sentences) {r : Request}
    (hr : p.resume r = .ok q) (hd : DirectAt script.sentences p.index q.index) :
    InStep script q := by
  obtain ⟨hscript, hscopes⟩ := h.waiting (resume_running hr).1
  rcases resume_eq_ok hr with ⟨events, rfl⟩ | ⟨m, o, events, hw, ho, rfl⟩
  · exact .of_running rfl hscript hscopes
  · refine .of_running rfl hscript ?_
    obtain ⟨_, hhead, hm⟩ := waitingMenu?_eq_some hw
    rw [sentence?, hscript, Option.bind_some] at hm
    obtain ⟨j, s, hs, hown, htarget⟩ := hg.attached.option_marker hm ho
    show p.scopes = openBefore _ o.target
    have hdirect := hd j s htarget hs hown
    rw [htarget, Script.openBefore_body hs hown hdirect, hscopes, Script.openBefore_opener hm rfl]

/-- A player of a script with direct markers stays in step through every session. -/
theorem kept_inStep (hg : Grown script.sentences) (hd : Direct script.sentences) :
    Kept fun p _ => InStep script p where
  turn p q _ hrunning h hturn :=
    (turns_of_turn hg (h.running hrunning).1 hrunning hturn).inStep hg hrunning h (hd.at _ _)
  failure p q e _ _ _ _ := .of_over (by simp [abort]) (by simp [abort])
  resume p q r _ h hr := h.resume hg hr (hd.at _ _)

end

end Player

end Fabula
