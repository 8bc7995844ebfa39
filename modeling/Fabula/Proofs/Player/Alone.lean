import Fabula.Proofs.Chain.Footing
import Fabula.Proofs.Player.Returning

/-!
# A story played alone

While a chain stands on a story, it serves a player as the story's own script would be served: the
speakers stand for the story's names, and a jump by an outlet without a branch leads nowhere. A
player whose script is directed on its own therefore keeps up with it, turn by turn and call by
call, until a turn leaves the story.
-/

namespace Fabula

namespace Chain

/-- Where an outlet of the current node leads. -/
def branch? (d : Chain) (outlet : String) : Option Target :=
  d.currentNode?.bind fun n => n.branch? outlet

/-- The chain stands on a story. -/
structure OnStory (d : Chain) (script : Script) (names : List String) : Prop where
  going : d.ended = false
  node : ∃ node source branches,
    d.currentNode? = some ⟨node, .story source script names, branches⟩

section
variable {d : Chain} {script : Script} {names : List String}

theorem nodeAt_of_currentNode? {n : ChainNode} (h : d.currentNode? = some n) :
    d.nodeAt d.current = .ok (some n) := by
  obtain ⟨nodes, hnodes, hn⟩ := Option.bind_eq_some_iff.mp h
  simp only [nodeAt, hnodes, hn]

theorem onStory_of_arrival (hopen : d.ended = false)
    (h : d.arrival d.current = .ok (.story script)) : ∃ names, d.OnStory script names := by
  cases hat : d.nodeAt d.current with
  | error e => simp [arrival, hat] at h
  | ok met =>
    obtain ⟨⟨node, kind, branches⟩, rfl, source, names, rfl⟩ := story_of_arrival hat h
    exact ⟨names, hopen, node, source, branches, currentNode?_of_nodeAt hat⟩

namespace OnStory

theorem currentScript? (h : d.OnStory script names) : d.currentScript? = some script := by
  obtain ⟨node, source, branches, hnode⟩ := h.node
  rw [Chain.currentScript?, hnode]

theorem character? (h : d.OnStory script names) (other : Script) (key : String) :
    Director.character? d other key =
      SingleScript.character? ⟨some names⟩ script key := by
  obtain ⟨node, source, branches, hnode⟩ := h.node
  have hcharacter : Director.character? d other key = (d.currentCharacter key).toOption := rfl
  simp only [hcharacter, currentCharacter, hnode, SingleScript.character?]
  cases (script.characterIndex? key).bind fun i => names[i]? <;> rfl

theorem leaveBy (h : d.OnStory script names) {outlet : String} (hnone : d.branch? outlet = none) :
    d.leaveBy outlet = (.ok .stay, d) := by
  obtain ⟨node, source, branches, hnode⟩ := h.node
  have hbranch : ChainNode.branch? ⟨node, .story source script names, branches⟩ outlet = none := by
    rw [branch?, hnode] at hnone
    exact hnone
  simp [Chain.leaveBy, h.going, nodeAt_of_currentNode? hnode, hbranch]

end OnStory

end

end Chain

namespace Player

open Script (Sentence Say Conditional Grown)

section
variable {D E : Type} (R : Player D → Player E → Prop)

/-- Both attempts succeed, or both fail with the same error. -/
inductive Attempt.Agrees : Attempt D → Attempt E → Prop
  | ok {p : Player D} {q : Player E} : R p q → Attempt.Agrees (.ok p) (.ok q)
  | error (e : RunError) {p : Player D} {q : Player E} : R p q →
      Attempt.Agrees (.error (e, p)) (.error (e, q))

/-- Both outcomes are of one kind, with the same error if they are failures. -/
inductive Outcome.Agrees : Outcome D → Outcome E → Prop
  | done {p : Player D} {q : Player E} : R p q → Outcome.Agrees (.done p) (.done q)
  | failed (e : RunError) {p : Player D} {q : Player E} : R p q →
      Outcome.Agrees (.failed e p) (.failed e q)
  | unfinished {p : Player D} {q : Player E} : R p q →
      Outcome.Agrees (.unfinished p) (.unfinished q)

variable {R}

theorem Attempt.Agrees.andThen {a : Attempt D} {b : Attempt E} {f : Player D → Attempt D}
    {g : Player E → Attempt E} (h : Attempt.Agrees R a b)
    (hf : ∀ p q, R p q → Attempt.Agrees R (f p) (g q)) :
    Attempt.Agrees R (a.andThen f) (b.andThen g) := by
  cases h with
  | ok h => exact hf _ _ h
  | error e h => exact .error e h

theorem Outcome.Agrees.player {o : Outcome D} {o' : Outcome E} (h : Outcome.Agrees R o o') :
    R o.player o'.player := by
  cases h <;> assumption

end

/-- What a host asks of a player that waits: to answer a request, or to go on elsewhere. -/
inductive Nudge where
  | request (r : Request)
  | goto (index : Nat)
deriving DecidableEq, Repr

section
variable {D : Type}

/-- The player that a nudge sets running, unless the player refuses it. -/
def nudged (p : Player D) : Nudge → Except RunError (Player D)
  | .request r => p.resume r
  | .goto index =>
    if p.status = .suspended then .ok { p with index, status := .running } else .error .notRunning

/-- A nudge that is not refused sets a player going again that waited. -/
theorem nudged_eq_ok {p q : Player D} {a : Nudge} (h : p.nudged a = .ok q) :
    p.status = .suspended ∧ ∃ index events, q = { p with index, status := .running, events } := by
  cases a with
  | request r =>
    refine ⟨suspended_of_resume h, ?_⟩
    rcases resume_eq_ok h with ⟨events, rfl⟩ | ⟨_, o, events, _, _, rfl⟩
    · exact ⟨_, events, rfl⟩
    · exact ⟨_, events, rfl⟩
  | goto index =>
    simp only [nudged] at h
    split at h
    · rename_i hwaits
      obtain rfl := Except.ok.inj h
      exact ⟨hwaits, index, _, rfl⟩
    · simp at h

variable [Director D]

def nudge (turns : Nat) (p : Player D) : Nudge → Outcome D
  | .request r => p.answer turns r
  | .goto index => p.resumeAt turns index

/-- The ends of nudges, each of which grants turns of its own. -/
def nudges : Outcome D → List (Nat × Nudge) → List (Outcome D)
  | _, [] => []
  | o, (turns, a) :: calls => o.player.nudge turns a :: nudges (o.player.nudge turns a) calls

theorem nudge_eq (turns : Nat) (p : Player D) (a : Nudge) :
    p.nudge turns a = match p.nudged a with
      | .ok q => run turns q
      | .error e => .failed e p := by
  cases a with
  | request r =>
    have hnudged : p.nudged (.request r) = p.resume r := rfl
    rw [hnudged]
    cases hr : p.resume r with
    | ok q => exact answer_of_resume hr
    | error e => exact answer_of_refuse hr
  | goto index =>
    simp only [nudge, resumeAt, nudged]
    split <;> rfl

end

/-- The next turn of the player takes it off the story: a jump by an outlet with a branch, or the
end of the script. -/
def leaves (p : Player Chain) : Bool :=
  p.script.any fun script =>
    match script.sentence? p.index with
    | none => true
    | some (.jump label) => (p.director.branch? (label.getD defaultOutlet)).isSome
    | some _ => false

/-- No turn of a run leaves the story. -/
def StaysFor (turns : Nat) (p : Player Chain) : Prop :=
  ∀ k < turns, ∀ x, run k p = .unfinished x → x.leaves = false

/-- No turn of the nudges leaves the story. -/
def Stays : Outcome Chain → List (Nat × Nudge) → Prop
  | _, [] => True
  | o, (turns, a) :: calls =>
    (∀ q, o.player.nudged a = .ok q → StaysFor turns q) ∧ Stays (o.player.nudge turns a) calls

theorem staysFor_succ_iff {turns : Nat} {p : Player Chain} (hrunning : p.status = .running) :
    StaysFor (turns + 1) p ↔ p.leaves = false ∧ ∀ q, p.turn = .ok q → StaysFor turns q := by
  have hnow : run 0 p = .unfinished p := by rw [run, if_pos hrunning]
  have hlater : ∀ k q, p.turn = .ok q → run (k + 1) p = run k q := by
    intro k q hturn
    simp only [run, if_pos hrunning, hturn]
  constructor
  · intro h
    refine ⟨h 0 (Nat.succ_pos turns) p hnow, ?_⟩
    intro q hturn k hk x hrun
    exact h (k + 1) (Nat.succ_lt_succ hk) x ((hlater k q hturn).trans hrun)
  · rintro ⟨hleaves, hrest⟩ k hk x hrun
    cases k with
    | zero =>
      obtain rfl := Outcome.unfinished.inj (hnow.symm.trans hrun)
      exact hleaves
    | succ k =>
      rcases hturn : p.turn with failure | q
      · simp [run, hrunning, hturn] at hrun
      · exact hrest q hturn k (Nat.lt_of_succ_lt_succ hk) x ((hlater k q hturn).symm.trans hrun)

/-- A player whose script is directed on its own is where the player is that the chain directs. It
has shown what that one has shown since it came to the story. -/
structure Mirrors (d : Chain) (names : List String) (before : List Event) (p : Player Chain)
    (q : Player SingleScript) : Prop where
  chain : p.director = d
  bindings : q.director = ⟨some names⟩
  loaded : p.script = d.currentScript?
  store : q.store = p.store
  script : q.script = p.script
  index : q.index = p.index
  scopes : q.scopes = p.scopes
  status : q.status = p.status
  menu : q.waitingMenu? = p.waitingMenu?
  moved : q.moved = p.moved
  events : ∃ said, p.events = before ++ said ∧ q.events = .visible true :: said

/-- The player alone that has shown what the player has shown. -/
def alone (p : Player Chain) (names : List String) : Player SingleScript :=
  { p with director := ⟨some names⟩, events := .visible true :: p.events }

theorem mirrors_alone {p : Player Chain} (h : p.script = p.director.currentScript?)
    (names : List String) : Mirrors p.director names [] p (p.alone names) :=
  ⟨rfl, rfl, h, rfl, rfl, rfl, rfl, rfl, rfl, rfl, p.events, rfl, rfl⟩

section
variable {d : Chain} {script : Script} {names : List String} {before : List Event}
  {p : Player Chain} {q : Player SingleScript}

namespace Mirrors

theorem sentence? (h : Mirrors d names before p q) : q.sentence? = p.sentence? := by
  rw [Player.sentence?, Player.sentence?, h.script, h.index]

theorem move (h : Mirrors d names before p q) (index : Nat) (scopes : List Nat) (status : Status)
    (moved : Bool) : Mirrors d names before { p with index, scopes, status, moved }
      { q with index, scopes, status, moved } := by
  refine ⟨h.chain, h.bindings, h.loaded, h.store, h.script, rfl, rfl, rfl, ?_, rfl, h.events⟩
  simp only [waitingMenu?, Player.sentence?, h.script]

theorem shows (h : Mirrors d names before p q) (e : Event) :
    Mirrors d names before (p.shows e) (q.shows e) := by
  obtain ⟨said, hp, hq⟩ := h.events
  refine { h with events := ⟨said ++ [e], ?_, ?_⟩ }
  · rw [Player.shows, hp, List.append_assoc]
  · rw [Player.shows, hq, List.cons_append]

theorem abort (h : Mirrors d names before p q) : Mirrors d names before p.abort q.abort := by
  refine { h with scopes := rfl, status := rfl, menu := ?_ }
  simp [waitingMenu?, Player.abort]

theorem currentText (h : Mirrors d names before p q) : q.currentText = p.currentText := by
  rw [Player.currentText, Player.currentText, h.sentence?]

theorem goto (h : Mirrors d names before p q) (target : Nat) :
    Mirrors d names before (p.goto target) (q.goto target) := by
  simpa only [Player.goto, h.scopes, h.status] using h.move target p.scopes p.status true

theorem advance (h : Mirrors d names before p q) :
    Mirrors d names before p.advance q.advance := by
  rw [Player.advance, Player.advance, h.index]
  exact h.goto (p.index + 1)

theorem pushScope (h : Mirrors d names before p q) (opener : Nat) :
    Mirrors d names before (p.pushScope opener) (q.pushScope opener) := by
  simpa only [Player.pushScope, h.index, h.scopes, h.status, h.moved] using
    h.move p.index (opener :: p.scopes) p.status p.moved

theorem popScope (h : Mirrors d names before p q) :
    Mirrors d names before p.popScope q.popScope := by
  simpa only [Player.popScope, h.index, h.scopes, h.status, h.moved] using
    h.move p.index p.scopes.tail p.status p.moved

theorem settle (h : Mirrors d names before p q) : Mirrors d names before p.settle q.settle := by
  unfold Player.settle
  rw [h.moved, h.status]
  split
  · simpa only [h.index, h.scopes, h.moved] using h.move p.index p.scopes .suspended p.moved
  · exact h

theorem showText (h : Mirrors d names before p q) (content : String) :
    Attempt.Agrees (Mirrors d names before) (p.showText content) (q.showText content) := by
  unfold Player.showText
  rw [h.store]
  cases Template.render? p.store content with
  | none => exact .error _ h
  | some text => exact .ok (h.shows _)

theorem executeConditional (h : Mirrors d names before p q) (c : Conditional) :
    Attempt.Agrees (Mirrors d names before) (p.executeConditional c) (q.executeConditional c) := by
  have hentered := h.pushScope p.index
  have hentry : (q.pushScope p.index).entry p.index c = (p.pushScope p.index).entry p.index c :=
    entry_congr hentered.store p.index c
  unfold Player.executeConditional
  simp only [h.index, hentry]
  cases (p.pushScope p.index).entry p.index c with
  | error e => exact .error e hentered
  | ok target => exact .ok (hentered.goto target)

section
variable (hd : d.OnStory script names)
include hd

theorem setCharacter (h : Mirrors d names before p q) (key extra : String) :
    Attempt.Agrees (Mirrors d names before) (p.setCharacter key extra)
      (q.setCharacter key extra) := by
  have hp : p.script = some script := h.loaded.trans hd.currentScript?
  have hq : q.script = some script := h.script.trans hp
  have hnames : Director.character? q.director script key =
      SingleScript.character? ⟨some names⟩ script key := by
    rw [h.bindings]
    rfl
  simp only [Player.setCharacter, hp, hq, Option.bind_some, h.chain, hd.character?, hnames,
    h.index, h.currentText]
  cases SingleScript.character? ⟨some names⟩ script key with
  | none => exact .error _ h
  | some name => exact .ok (h.shows _)

theorem executeSay (h : Mirrors d names before p q) (line : Say) :
    Attempt.Agrees (Mirrors d names before) (p.executeSay line) (q.executeSay line) := by
  unfold Player.executeSay
  apply Attempt.Agrees.andThen
  · split
    · exact .ok (h.shows _)
    · exact h.setCharacter hd line.speaker line.extra
  · intro _ _ hnamed
    exact hnamed.showText line.text

theorem leave (h : Mirrors d names before p q) {outlet : String}
    (hnone : d.branch? outlet = none) :
    Attempt.Agrees (Mirrors d names before) (p.leave outlet) (q.leave outlet) := by
  obtain rfl := h.chain
  have hp : p.leave outlet = .ok p.advance := by
    rw [leave_eq, hd.leaveBy hnone]
    rfl
  have hq : q.leave outlet = .ok q.advance := rfl
  rw [hp, hq]
  exact .ok h.advance

theorem execute (h : Mirrors d names before p q) {s : Sentence} (hcommand : ∀ c, s ≠ .command c)
    (hjump : ∀ label, s = .jump label → d.branch? (label.getD defaultOutlet) = none) :
    Attempt.Agrees (Mirrors d names before) (p.execute s) (q.execute s) := by
  cases s with
  | say line => exact h.executeSay hd line
  | menu m =>
    refine .ok ?_
    rw [h.index]
    exact (h.shows _).pushScope p.index
  | conditional c => exact h.executeConditional c
  | close => exact .ok h.popScope.advance
  | jump label =>
    have hnone := hjump label rfl
    cases label with
    | some label => exact h.leave hd hnone
    | none => exact h.leave hd hnone
  | option text own => exact .ok h.advance
  | branch condition own => exact .ok h.advance
  | otherwise own => exact .ok h.advance
  | command c => exact absurd rfl (hcommand c)

theorem turn (hg : Grown script.sentences) (h : Mirrors d names before p q)
    (hleaves : p.leaves = false) :
    Attempt.Agrees (Mirrors d names before) p.turn q.turn := by
  have hp : p.script = some script := h.loaded.trans hd.currentScript?
  have hq : q.script = some script := h.script.trans hp
  rw [leaves, hp, Option.any_some] at hleaves
  cases hs : script.sentence? p.index with
  | none => simp [hs] at hleaves
  | some s =>
    have hsq : script.sentence? q.index = some s := by rw [h.index, hs]
    have hredirect : q.redirect? script s = p.redirect? script s := by
      rw [redirect?, redirect?, h.scopes]
    cases hr : p.redirect? script s with
    | some target =>
      rw [turn_of_redirect hp hs hr, turn_of_redirect hq hsq (hredirect.trans hr)]
      refine .ok ?_
      simpa only [h.scopes, h.status, h.moved] using h.move target p.scopes p.status p.moved
    | none =>
      have hcommand : ∀ c, s ≠ .command c := by
        rintro c rfl
        exact hg.no_command c (List.mem_of_getElem? hs)
      have hjump : ∀ label, s = .jump label → d.branch? (label.getD defaultOutlet) = none := by
        rintro label rfl
        simpa [hs, h.chain] using hleaves
      have hbegun : Mirrors d names before { p with moved := false } { q with moved := false } := by
        simpa only [h.index, h.scopes, h.status] using h.move p.index p.scopes p.status false
      have hexecute := hbegun.execute hd hcommand hjump
      rw [turn_of_execute hp hs hr, turn_of_execute hq hsq (hredirect.trans hr)]
      generalize Player.execute { p with moved := false } s = a at hexecute
      generalize Player.execute { q with moved := false } s = b at hexecute
      cases hexecute with
      | ok hnext => exact .ok hnext.settle
      | error e hfailed => exact .error e hfailed

theorem run (hg : Grown script.sentences) {turns : Nat} (h : Mirrors d names before p q)
    (hstays : StaysFor turns p) :
    Outcome.Agrees (Mirrors d names before) (run turns p) (run turns q) := by
  induction turns generalizing p q with
  | zero =>
    simp only [Player.run, h.status]
    split
    · exact .unfinished h
    · exact .done h
  | succ turns ih =>
    by_cases hrunning : p.status = .running
    · obtain ⟨hleaves, hnext⟩ := (staysFor_succ_iff hrunning).mp hstays
      have hturn := h.turn hd hg hleaves
      simp only [Player.run, h.status, if_pos hrunning]
      generalize p.turn = a at hturn hnext
      generalize q.turn = b at hturn
      cases hturn with
      | ok hq => exact ih hq (hnext _ rfl)
      | error e hfailed => exact .failed e hfailed.abort
    · have hidle : q.status ≠ .running := fun hq => hrunning (h.status.symm.trans hq)
      rw [run_of_not_running hrunning, run_of_not_running hidle]
      exact .done h

end

theorem goOn (h : Mirrors d names before p q) (index : Nat) :
    Mirrors d names before { p with index, status := .running }
      { q with index, status := .running } := by
  simpa only [h.scopes, h.moved] using h.move index p.scopes .running p.moved

theorem resume (h : Mirrors d names before p q) (r : Request) :
    (∃ p' q', p.resume r = .ok p' ∧ q.resume r = .ok q' ∧ Mirrors d names before p' q') ∨
      ∃ e, p.resume r = .error e ∧ q.resume r = .error e := by
  by_cases hwaits : p.status = .suspended
  · have hq : q.status = .suspended := h.status.trans hwaits
    have hcleared := h.shows .clearMenu
    cases hm : p.waitingMenu? with
    | some m =>
      have hmq : q.waitingMenu? = some m := h.menu.trans hm
      cases r with
      | proceed =>
        refine .inl ⟨_, _, resume_proceed_of_menu hm, resume_proceed_of_menu hmq, ?_⟩
        rw [h.index]
        exact hcleared.goOn (p.index + 1)
      | choose k =>
        cases ho : m.options[k]? with
        | some o =>
          exact .inl ⟨_, _, resume_choose_of_menu hm ho, resume_choose_of_menu hmq ho,
            hcleared.goOn o.target⟩
        | none =>
          exact .inr ⟨_, resume_choose_of_missing hm ho, resume_choose_of_missing hmq ho⟩
    | none =>
      have hmq : q.waitingMenu? = none := h.menu.trans hm
      cases r with
      | proceed =>
        refine .inl ⟨_, _, resume_proceed_of_line hwaits hm, resume_proceed_of_line hq hmq, ?_⟩
        rw [h.index]
        exact h.goOn (p.index + 1)
      | choose k =>
        exact .inr ⟨_, resume_choose_of_line hwaits hm, resume_choose_of_line hq hmq⟩
  · refine .inr ⟨.notRunning, ?_⟩
    cases r <;> simp only [Player.resume, h.status, if_neg hwaits, and_self]

/-- Both are set going, or both refuse with the same error. -/
theorem nudged (h : Mirrors d names before p q) (a : Nudge) :
    (∃ p' q', p.nudged a = .ok p' ∧ q.nudged a = .ok q' ∧ Mirrors d names before p' q') ∨
      ∃ e, p.nudged a = .error e ∧ q.nudged a = .error e := by
  cases a with
  | request r => exact h.resume r
  | goto index =>
    simp only [Player.nudged, h.status]
    split
    · exact .inl ⟨_, _, rfl, rfl, h.goOn index⟩
    · exact .inr ⟨_, rfl, rfl⟩

section
variable (hd : d.OnStory script names) (hg : Grown script.sentences)
include hd hg

theorem nudge (h : Mirrors d names before p q) {turns : Nat} {a : Nudge}
    (hstays : ∀ p', p.nudged a = .ok p' → StaysFor turns p') :
    Outcome.Agrees (Mirrors d names before) (p.nudge turns a) (q.nudge turns a) := by
  rw [nudge_eq, nudge_eq]
  rcases h.nudged a with ⟨p', q', hp, hq, hset⟩ | ⟨e, hp, hq⟩
  · rw [hp, hq]
    exact hset.run hd hg (hstays p' hp)
  · rw [hp, hq]
    exact .failed e h

end

end Mirrors

theorem nudges_agree (hd : d.OnStory script names) (hg : Grown script.sentences)
    {o : Outcome Chain} {o' : Outcome SingleScript} {calls : List (Nat × Nudge)}
    (h : Outcome.Agrees (Mirrors d names before) o o') (hstays : Stays o calls) :
    List.Forall₂ (Outcome.Agrees (Mirrors d names before)) (nudges o calls) (nudges o' calls) := by
  induction calls generalizing o o' with
  | nil => exact .nil
  | cons call calls ih =>
    obtain ⟨hnow, hlater⟩ := hstays
    have hagrees := h.player.nudge hd hg hnow
    exact .cons hagrees (ih hagrees hlater)

end

end Player

end Fabula
