import Fabula.Proofs.Player.Cues

/-!
# Pauses

A script on its own is played forward. Within a call each turn begins past the one before it,
wherever the host went and whatever was left open. Over a whole session each sentence is executed
at most once, so the session is over when it was set going as often as there are sentences that
pause.
-/

namespace Fabula

namespace Script

def Sentence.pauses : Sentence → Bool
  | .say _ => true
  | .menu _ => true
  | _ => false

/-- How many sentences wait for the host. -/
def pauses (script : Script) : Nat := script.sentences.countP Sentence.pauses

/-- How many of them come before an index. -/
def pausesBefore (script : Script) (index : Nat) : Nat :=
  (script.sentences.take index).countP Sentence.pauses

theorem pausesBefore_le (script : Script) (index : Nat) :
    script.pausesBefore index ≤ script.pauses :=
  (List.take_sublist index script.sentences).countP_le

theorem pausesBefore_mono (script : Script) {i j : Nat} (h : i ≤ j) :
    script.pausesBefore i ≤ script.pausesBefore j :=
  (List.take_sublist_take_left h).countP_le

theorem pausesBefore_succ {script : Script} {i : Nat} {s : Sentence}
    (hs : script.sentence? i = some s) (hpauses : s.pauses = true) :
    script.pausesBefore (i + 1) = script.pausesBefore i + 1 := by
  have htake : script.sentences.take (i + 1) = script.sentences.take i ++ [s] := by
    rw [List.take_add_one, show script.sentences[i]? = some s from hs, Option.toList_some]
  rw [pausesBefore, htake, List.countP_append, List.countP_singleton, if_pos hpauses]
  rfl

end Script

namespace Player

open Script (Sentence Say Menu Conditional Grown)

variable {D : Type}

section
variable [Director D]

/-- The indices at which the turns of a run begin, whatever becomes of the turns. -/
def trail : Nat → Player D → List Nat
  | 0, _ => []
  | turns + 1, p =>
    if p.status = .running then
      p.index ::
        match p.turn with
        | .ok next => trail turns next
        | .error _ => []
    else []

/-- One, if the request sets the player going. -/
def accepts (p : Player D) (r : Request) : Nat :=
  match p.resume r with
  | .ok _ => 1
  | .error _ => 0

/-- How many of the requests set the player going. -/
def accepted (turns : Nat) : Outcome D → List Request → Nat
  | _, [] => 0
  | o, r :: rs => o.player.accepts r + accepted turns (o.player.answer turns r) rs

/-- The end of the last of the requests. -/
def ending (turns : Nat) (o : Outcome D) (rs : List Request) : Outcome D :=
  rs.foldl (fun o r => o.player.answer turns r) o

end

/-- The indices at which the turns of a call begin. -/
def trailOf (turns : Nat) (p : Player SingleScript) (a : Cue) : List Nat :=
  match p.prompt a with
  | .ok q => trail turns q
  | .error _ => []

section
variable {script : Script} {p q : Player SingleScript}

theorem trail_of_not_running {turns : Nat} (h : p.status ≠ .running) : trail turns p = [] := by
  cases turns <;> simp [trail, h]

-- By induction on the turns. The scopes play no part: also a redirect leads forward.
theorem trail_forward {turns : Nat} (hreads : Reads p) :
    (∀ i ∈ trail turns p, p.index ≤ i) ∧ (trail turns p).Pairwise (· < ·) := by
  induction turns generalizing p with
  | zero => simp [trail]
  | succ turns ih =>
    by_cases hrunning : p.status = .running
    · have hrest : ∀ q : Player SingleScript, p.turn = .ok q →
          (∀ i ∈ trail turns q, p.index < i) ∧ (trail turns q).Pairwise (· < ·) := by
        intro q hturn
        by_cases hq : q.status = .running
        · cases hscript : p.script with
          | none =>
            rw [turn_without_script hscript] at hturn
            obtain rfl := Except.ok.inj hturn
            simp [finish] at hq
          | some script =>
            have hg := (hreads script hscript).grown
            have hkept := (turn_keeps hg hscript hrunning hturn).1
            have hforward := (turn_forward hg hscript hrunning hturn hq).1
            obtain ⟨hle, hsorted⟩ := @ih q (by rw [Reads, hkept, ← hscript]; exact hreads)
            exact ⟨fun i hi => Nat.lt_of_lt_of_le hforward (hle i hi), hsorted⟩
        · simp [trail_of_not_running hq]
      rw [trail, if_pos hrunning]
      rcases hturn : p.turn with failure | q
      · simp
      · obtain ⟨hlt, hsorted⟩ := hrest q hturn
        refine ⟨?_, List.pairwise_cons.mpr ⟨hlt, hsorted⟩⟩
        intro i hi
        rcases List.mem_cons.mp hi with rfl | hi
        · exact Nat.le_refl p.index
        · exact Nat.le_of_lt (hlt i hi)
    · simp [trail_of_not_running hrunning]

theorem resume_forward {r : Request} (hg : Grown script.sentences) (hscript : p.script = some script)
    (h : p.resume r = .ok q) : p.index < q.index := by
  rcases resume_eq_ok h with ⟨events, rfl⟩ | ⟨m, o, events, hmenu, ho, rfl⟩
  · exact Nat.lt_succ_self p.index
  · obtain ⟨_, _, hm⟩ := waitingMenu?_eq_some hmenu
    rw [sentence?, hscript, Option.bind_some] at hm
    obtain ⟨j, s, hs, hown, htarget⟩ := hg.attached.option_marker hm ho
    have hlt := (hg.attached.owned j s p.index hs hown).1
    show p.index < o.target
    omega

/-- The sentences executed so far, in order, lie behind the player. -/
structure Ahead (script : Script) (p : Player SingleScript) (seen : List Nat) : Prop where
  sorted : seen.Pairwise (· < ·)
  running : p.status = .running → p.script = some script ∧ ∀ i ∈ seen, i < p.index
  waiting : p.status = .suspended → p.script = some script ∧ ∀ i ∈ seen, i ≤ p.index

theorem executing?_eq_some {i : Nat} (h : p.executing? = some i) : i = p.index := by
  simp only [executing?, Option.bind_eq_some_iff] at h
  obtain ⟨_, _, _, _, hi⟩ := h
  split at hi
  · exact (Option.some.inj hi).symm
  · simp at hi

theorem Ahead.executed {seen : List Nat} (h : Ahead script p seen)
    (hrunning : p.status = .running) :
    (seen ++ p.executing?.toList).Pairwise (· < ·) ∧
      ∀ i ∈ seen ++ p.executing?.toList, i ≤ p.index := by
  obtain ⟨_, hbehind⟩ := h.running hrunning
  cases hexec : p.executing? with
  | none =>
    rw [Option.toList_none, List.append_nil]
    exact ⟨h.sorted, fun i hi => Nat.le_of_lt (hbehind i hi)⟩
  | some own =>
    obtain rfl := executing?_eq_some hexec
    rw [Option.toList_some]
    constructor
    · refine List.pairwise_append.mpr ⟨h.sorted, List.pairwise_singleton _ _, ?_⟩
      intro i hi j hj
      obtain rfl := List.mem_singleton.mp hj
      exact hbehind i hi
    · intro i hi
      rcases List.mem_append.mp hi with hi | hi
      · exact Nat.le_of_lt (hbehind i hi)
      · exact Nat.le_of_eq (List.mem_singleton.mp hi)

/-- Where a turn leaves the player: further on, waiting where it was, or nowhere. -/
theorem turn_lands (hg : Grown script.sentences) (hscript : p.script = some script)
    (hrunning : p.status = .running) (h : p.turn = .ok q) :
    (q.status = .running → p.index < q.index) ∧ (q.status = .suspended → q.index = p.index ∧
      ∃ s, script.sentence? p.index = some s ∧ s.pauses = true) := by
  refine ⟨fun hq => (turn_forward hg hscript hrunning h hq).1, fun hq => ?_⟩
  cases turns_of_turn hg hscript hrunning h with
  | said events hs => exact ⟨rfl, _, hs, rfl⟩
  | offered hs => exact ⟨rfl, _, hs, rfl⟩
  | ended => simp [finish] at hq
  | redirected | entered | closed | jumped | marked => simp [hrunning] at hq

theorem kept_ahead (hg : Grown script.sentences) : Kept (Ahead script) where
  turn p q seen hrunning h hturn := by
    have hscript := (h.running hrunning).1
    obtain ⟨hsorted, hle⟩ := h.executed hrunning
    obtain ⟨hforward, hwaits⟩ := turn_lands hg hscript hrunning hturn
    have hkept := (turn_keeps hg hscript hrunning hturn).1
    refine ⟨hsorted, fun hq => ⟨hkept, fun i hi => ?_⟩, fun hq => ⟨hkept, fun i hi => ?_⟩⟩
    · have := hle i hi
      have := hforward hq
      omega
    · rw [(hwaits hq).1]
      exact hle i hi
  failure p q e seen hrunning h _ :=
    ⟨(h.executed hrunning).1, by simp [abort], by simp [abort]⟩
  resume p q r seen h hr := by
    obtain ⟨hwaits, hrunning⟩ := resume_running hr
    obtain ⟨hscript, hle⟩ := h.waiting hwaits
    have hforward := resume_forward hg hscript hr
    refine ⟨h.sorted, fun _ => ⟨(resume_keeps hr).1.trans hscript, fun i hi => ?_⟩, ?_⟩
    · have := hle i hi
      omega
    · intro hq
      simp [hrunning] at hq

/-- The player plays the script, and at least `n` sentences that pause lie behind it. -/
structure Paused (script : Script) (n : Nat) (p : Player SingleScript) : Prop where
  plays : p.script = some script
  bound : n ≤ script.pauses
  running : p.status = .running → n ≤ script.pausesBefore p.index
  waiting : p.status = .suspended → n < script.pausesBefore (p.index + 1)

theorem Paused.resume {n : Nat} {r : Request} (hg : Grown script.sentences)
    (h : Paused script n p) (hr : p.resume r = .ok q) : Paused script (n + 1) q := by
  obtain ⟨hwaits, hrunning⟩ := resume_running hr
  have hbehind : n + 1 ≤ script.pausesBefore (p.index + 1) := h.waiting hwaits
  have hforward : p.index + 1 ≤ q.index := resume_forward hg h.plays hr
  -- The sentence that waited pauses, and the player has gone past it.
  refine ⟨(resume_keeps hr).1.trans h.plays, ?_, fun _ => ?_, ?_⟩
  · exact Nat.le_trans hbehind (script.pausesBefore_le _)
  · exact Nat.le_trans hbehind (script.pausesBefore_mono hforward)
  · intro hq
    simp [hrunning] at hq

theorem Paused.weaken {n m : Nat} (h : Paused script n p) (hm : m ≤ n) : Paused script m p :=
  ⟨h.plays, Nat.le_trans hm h.bound, fun hq => Nat.le_trans hm (h.running hq),
    fun hq => Nat.lt_of_le_of_lt hm (h.waiting hq)⟩

theorem kept_paused (hg : Grown script.sentences) (n : Nat) :
    Kept fun p _ => Paused script n p where
  turn p q _ hrunning h hturn := by
    have hbehind := h.running hrunning
    obtain ⟨hforward, hwaits⟩ := turn_lands hg h.plays hrunning hturn
    refine ⟨(turn_keeps hg h.plays hrunning hturn).1, h.bound, fun hq => ?_, fun hq => ?_⟩
    · exact Nat.le_trans hbehind (script.pausesBefore_mono (Nat.le_of_lt (hforward hq)))
    · obtain ⟨hindex, s, hs, hpauses⟩ := hwaits hq
      rw [hindex, Script.pausesBefore_succ hs hpauses]
      omega
  failure p q e _ hrunning h hturn :=
    ⟨(turn_eq_error hg h.plays hturn).2, h.bound, by simp [abort], by simp [abort]⟩
  resume p q r _ h hr := (h.resume hg hr).weaken (Nat.le_succ n)

theorem paused_started (p : Player SingleScript) (script : Script) (callback : Bool) :
    Paused script 0 (p.started script callback) :=
  ⟨rfl, Nat.zero_le _, fun _ => Nat.zero_le _, by simp [started]⟩

theorem Paused.reads {n : Nat} (h : Paused script n p) (hcompiled : script.Compiled) : Reads p := by
  intro other hother
  obtain rfl := Option.some.inj (h.plays.symm.trans hother)
  exact hcompiled

/-- A call has returned, and at least `n` sentences that pause lie behind it. -/
structure Over (script : Script) (n : Nat) (o : Outcome SingleScript) : Prop where
  returned : o.returned = true
  halted : o.player.status ≠ .running
  paused : Paused script n o.player

theorem Paused.outcome {turns n : Nat} (hcompiled : script.Compiled) (hturns : script.size < turns)
    (hrunning : p.status = .running) (h : Paused script n p) : Over script n (run turns p) := by
  have hreturned : (run turns p).returned = true :=
    returned_of_left hcompiled.grown h.plays (by omega)
  have hrests := rests_run (h.reads hcompiled) hrunning hreturned
  have hrun := @Kept.run _ _ _ (kept_paused hcompiled.grown n) turns p [] h
  exact ⟨hreturned, hrests.settled.halted, hrun⟩

theorem Over.answer {turns n : Nat} {o : Outcome SingleScript} (hcompiled : script.Compiled)
    (hturns : script.size < turns) (h : Over script n o) (r : Request) :
    Over script (n + o.player.accepts r) (o.player.answer turns r) := by
  unfold accepts
  cases hr : o.player.resume r with
  | error e =>
    rw [answer_of_refuse hr]
    exact ⟨rfl, h.halted, h.paused⟩
  | ok q =>
    have hq := h.paused.resume hcompiled.grown hr
    rw [answer_of_resume hr]
    exact hq.outcome hcompiled hturns (resume_running hr).2

theorem Over.ending {turns n : Nat} {o : Outcome SingleScript} (hcompiled : script.Compiled)
    (hturns : script.size < turns) (h : Over script n o) (rs : List Request) :
    Over script (n + accepted turns o rs) (ending turns o rs) := by
  induction rs generalizing o n with
  | nil => exact h
  | cons r rs ih =>
    rw [accepted, ← Nat.add_assoc]
    exact ih (h.answer hcompiled hturns r)

end

/-- A player goes forward in its script, so each of its calls returns, each of its sentences is
executed once at most, and the session is over when it was set going as often as there are
sentences that pause. -/
theorem goes_forward :
    (∀ (p : Player SingleScript) (a : Cue), Reads p → a.Compiled → ∀ turns,
      (trailOf turns p a).Pairwise (· < ·) ∧
      (p.span a < turns → (p.take turns a).returned = true)) ∧
    ∀ script : Script, script.Compiled → ∀ (p : Player SingleScript) callback requests turns,
      (visits turns (p.started script callback) requests).Pairwise (· < ·) ∧
      (script.size < turns →
        let o := ending turns (p.play turns script callback) requests
        let n := accepted turns (p.play turns script callback) requests
        o.returned = true ∧ n ≤ script.pauses ∧
          (n < script.pauses ∧ o.player.status = .suspended ∨
            o.player.status = .finished ∨ o.player.status = .idle)) := by
  constructor
  · intro p a hreads ha turns
    refine ⟨?_, returned_take hreads ha⟩
    unfold trailOf
    cases hprompt : p.prompt a with
    | error e => exact .nil
    | ok q => exact (trail_forward (prompt_script hreads ha hprompt).1).2
  · intro script hcompiled p callback requests turns
    have hahead : Ahead script (p.started script callback) [] :=
      ⟨.nil, fun _ => ⟨rfl, by simp⟩, by simp [started]⟩
    obtain ⟨_, q, hq⟩ := (kept_ahead hcompiled.grown).session turns hahead requests
    refine ⟨hq.sorted, ?_⟩
    intro hturns o n
    have hplay : Over script 0 (p.play turns script callback) :=
      (paused_started p script callback).outcome hcompiled hturns rfl
    have hover : Over script n o := by
      have hending := hplay.ending hcompiled hturns requests
      rwa [Nat.zero_add] at hending
    refine ⟨hover.returned, hover.paused.bound, ?_⟩
    cases hstatus : o.player.status with
    | running => exact absurd hstatus hover.halted
    | idle => exact .inr (.inr rfl)
    | finished => exact .inr (.inl rfl)
    | suspended =>
      have hlt := hover.paused.waiting hstatus
      exact .inl ⟨Nat.lt_of_lt_of_le hlt (script.pausesBefore_le _), rfl⟩

/-- Back from past the menu, the host is stopped at the menu again. Three requests use up the
three pauses of a session, so it is over. -/
theorem forward_through_doorway :
    let new := Player.new (⟨none⟩ : SingleScript) .empty
    let p := ((new.take 6 (.play doorway true)).player.take 6 (.goto 4)).player
    let requests := [.choose 0, .proceed, .proceed]
    let o := ending 6 (new.play 6 doorway false) requests
    doorway.Compiled ∧ Reads p ∧ (Cue.goto 0).Compiled ∧ p.scopes = [0] ∧
      p.span (.goto 0) < 6 ∧ (p.take 6 (.goto 0)).returned = true ∧
      doorway.size < 6 ∧ accepted 6 (new.play 6 doorway false) requests = doorway.pauses ∧
      visits 6 (new.started doorway false) requests = [0, 2, 3, 4] ∧
      (o.player.status = .finished ∨ o.player.status = .idle) := by
  intro new p requests o
  have hreads : Reads p := by
    intro script hscript
    obtain rfl : doorway = script := Option.some.inj hscript
    exact compiled_doorway
  have hspan : p.span (.goto 0) < 6 := by decide
  have hcall := (goes_forward.1 p (.goto 0) hreads trivial 6).2 hspan
  have hsession := (goes_forward.2 doorway compiled_doorway new false requests 6).2 (by decide)
  have haccepted : accepted 6 (new.play 6 doorway false) requests = doorway.pauses := by
    decide +kernel
  refine ⟨compiled_doorway, hreads, trivial, rfl, hspan, hcall, by decide, haccepted, ?_, ?_⟩
  · decide +kernel
  · rcases hsession.2.2 with ⟨hlt, _⟩ | hover
    · rw [haccepted] at hlt
      exact absurd hlt (Nat.lt_irrefl _)
    · exact hover

end Player

end Fabula
