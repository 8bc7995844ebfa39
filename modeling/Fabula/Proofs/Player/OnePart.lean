import Fabula.Proofs.Player.InStep
import Fabula.Proofs.Script.Parts

/-!
# One part of a block

When all blocks are closed and all markers stand directly in their blocks, a session executes
sentences of at most one part of each block that it enters.
-/

namespace Fabula

namespace Player

open Script (Sentence Grown Direct AllClosed OnePart Clear MarkerOf lines openBefore)

section
variable {script : Script} {p q : Player SingleScript}

theorem executing?_of_plain {s : Sentence} (hscript : p.script = some script)
    (hs : script.sentence? p.index = some s) (ho : s.owner? = none) :
    p.executing? = some p.index := by
  rw [executing?_eq hscript hs, redirect?_of_plain ho, if_pos rfl]

theorem redirect?_of_head (hg : Grown script.sentences) {own e : Nat} {s : Sentence}
    (hs : script.sentence? p.index = some s) (ho : s.owner? = some own)
    (hhead : p.scopes.head? = some own) (he : Script.exitAt script.sentences own = some e) :
    p.redirect? script s = some e := by
  obtain ⟨opener, hopener, htable⟩ := hg.attached.owner_table hs ho
  refine redirect?_eq_some_iff.mpr ⟨own, hhead, ho, opener, hopener, ?_⟩
  have hexit : opener.exit? = some e := by
    rw [Script.exitAt, hopener] at he
    exact he
  cases s <;> cases opener <;>
    simp_all [Sentence.owner?, Sentence.table, Sentence.line, Sentence.redirect, Sentence.exit?]

theorem redirect?_of_not_head {own : Nat} {s : Sentence} (ho : s.owner? = some own)
    (hhead : p.scopes.head? ≠ some own) : p.redirect? script s = none := by
  cases hr : p.redirect? script s with
  | none => rfl
  | some target =>
    obtain ⟨i, hi, hsi, _⟩ := redirect?_eq_some_iff.mp hr
    exact absurd (hi.trans (hsi.symm.trans ho)) hhead

/-- In step, with all that was executed in one part of each block. -/
structure Apart (script : Script) (p : Player SingleScript) (seen : List Nat) : Prop where
  inStep : InStep script p
  onePart : OnePart script.sentences seen
  running : p.status = .running → Clear script.sentences seen p.index
  waiting : p.status = .suspended → Clear script.sentences seen (p.index + 1)

theorem Turns.apart (ht : Turns script p q) {seen : List Nat} (hg : Grown script.sentences)
    (hd : Direct script.sentences) (hclosed : AllClosed script.sentences)
    (hrunning : p.status = .running) (h : Apart script p seen) :
    Apart script q (seen ++ p.executing?.toList) := by
  obtain ⟨hscript, hscopes⟩ := h.inStep.running hrunning
  have hclear := h.running hrunning
  have hstep := ht.inStep hg hrunning h.inStep (hd.at _ _)
  have hexec : ∀ s : Sentence, script.sentence? p.index = some s → s.owner? = none →
      OnePart script.sentences (seen ++ p.executing?.toList) ∧
        Clear script.sentences (seen ++ p.executing?.toList) (p.index + 1) := by
    intro s hs ho
    rw [executing?_of_plain hscript hs ho]
    exact ⟨h.onePart.concat hclear, hclear.concat hs ho⟩
  cases ht with
  | ended hend =>
    have hnone : p.executing? = none := by rw [executing?, hscript, Option.bind_some, hend]; rfl
    rw [hnone, Option.toList_none, List.append_nil]
    exact ⟨hstep, h.onePart, by simp [finish], by simp [finish]⟩
  | redirected hs hr =>
    obtain ⟨own, _, ho, he⟩ := redirect?_exit hr
    rw [executing?_eq hscript hs, hr, if_neg (by simp), Option.toList_none, List.append_nil]
    refine ⟨hstep, h.onePart, fun _ => ?_, fun hw => by simp [hrunning] at hw⟩
    exact hclear.leave hg hd ⟨_, hs, ho⟩ he
  | said events hs =>
    obtain ⟨hone, hnext⟩ := hexec _ hs rfl
    exact ⟨hstep, hone, by simp, fun _ => hnext⟩
  | offered hs =>
    obtain ⟨hone, hnext⟩ := hexec _ hs rfl
    exact ⟨hstep, hone, by simp, fun _ => hnext⟩
  | entered hs he =>
    obtain ⟨hone, hnext⟩ := hexec _ hs rfl
    refine ⟨hstep, hone, fun _ => ?_, fun hw => by simp [hrunning] at hw⟩
    obtain ⟨e, hexit⟩ := Script.exit_of_closed hclosed hs rfl
    exact hnext.enter hg hd hexit (entry_forward hg hs he) (entry_le_exit hg hs he hexit)
  | closed hs =>
    obtain ⟨hone, hnext⟩ := hexec _ hs rfl
    exact ⟨hstep, hone, fun _ => hnext, fun hw => by simp [hrunning] at hw⟩
  | jumped hs =>
    obtain ⟨hone, hnext⟩ := hexec _ hs rfl
    exact ⟨hstep, hone, fun _ => hnext, fun hw => by simp [hrunning] at hw⟩
  | marked hs ho hr =>
    -- in step and among closed blocks every marker redirects
    obtain ⟨e, hexit⟩ := Script.exit_of_owner hg hclosed hs ho
    have hhead := hd p.index _ _ hs ho
    rw [redirect?_of_head hg hs ho (hscopes ▸ hhead) hexit] at hr
    simp at hr

theorem Apart.resume {seen : List Nat} (h : Apart script p seen) (hg : Grown script.sentences)
    (hd : Direct script.sentences) (hclosed : AllClosed script.sentences) {r : Request}
    (hr : p.resume r = .ok q) : Apart script q seen := by
  obtain ⟨hw, hrunning⟩ := resume_running hr
  have hclear := h.waiting hw
  refine ⟨h.inStep.resume hg hr (hd.at _ _), h.onePart, fun _ => ?_,
    fun hq => by simp [hrunning] at hq⟩
  rcases resume_eq_ok hr with ⟨events, rfl⟩ | ⟨m, o, events, hmenu, ho, rfl⟩
  · exact hclear
  · obtain ⟨_, _, hm⟩ := waitingMenu?_eq_some hmenu
    rw [sentence?, (h.inStep.waiting hw).1, Option.bind_some] at hm
    obtain ⟨e, hexit⟩ := Script.exit_of_closed hclosed hm rfl
    obtain ⟨j, s, hs, hown, htarget⟩ := hg.attached.option_marker hm ho
    obtain ⟨hij, _, hje⟩ := hg.attached.owned j s p.index hs hown
    have hte := hje e hexit
    exact hclear.enter hg hd hexit (by show p.index < o.target; omega)
      (by show o.target ≤ e; omega)

theorem kept_apart (hg : Grown script.sentences) (hd : Direct script.sentences)
    (hclosed : AllClosed script.sentences) : Kept (Apart script) where
  turn p q seen hrunning h hturn :=
    (turns_of_turn hg (h.inStep.running hrunning).1 hrunning hturn).apart hg hd hclosed hrunning h
  failure p q e seen hrunning h hturn := by
    rw [executing_of_failure (h.inStep.running hrunning).1 hturn]
    exact ⟨.of_over (by simp [abort]) (by simp [abort]),
      h.onePart.concat (h.running hrunning), by simp [abort], by simp [abort]⟩
  resume p q r seen h hr := h.resume hg hd hclosed hr

theorem apart_started (p : Player SingleScript) (script : Script) (callback : Bool) :
    Apart script (p.started script callback) [] :=
  ⟨inStep_started p script callback, .nil _, fun _ a ha => by simp at ha, fun _ a ha => by simp at ha⟩

/-- Direct markers keep every session to one part of each block. -/
theorem onePart_visits (hg : Grown script.sentences) (hd : Direct script.sentences)
    (hclosed : AllClosed script.sentences) (p : Player SingleScript) (turns : Nat)
    (callback : Bool) (rs : List Request) :
    OnePart script.sentences (visits turns (p.started script callback) rs) := by
  obtain ⟨_, q, hq⟩ :=
    (kept_apart hg hd hclosed).session turns (apart_started p script callback) rs
  exact hq.onePart

end

end Player

end Fabula
