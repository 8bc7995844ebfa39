import Fabula.Proofs.Chain.Footing
import Fabula.Proofs.Player.Arrivals

/-!
# Astray

A transfer that fails leaves the chain on the call or the finish at which it stopped, and so off
every story. A player whose host jumped waits on as before, but its chain no longer stands on the
story that it plays. It goes on as if the jump had not been made until it asks the chain for
something; a speaker then stands for nobody.
-/

namespace Fabula

namespace Chain

/-- A transfer from `d` that failed has left the chain at `d'`. -/
structure Astray (d d' : Chain) : Prop where
  root : d'.root = d.root
  graphs : d'.graphs = d.graphs
  open_before : d.ended = false
  open_after : d'.ended = false
  script : d'.currentScript? = none
  character : ∀ key, d'.currentCharacter key = .error .notAStory

section
variable {d d' : Chain}

theorem arrival_of_currentNode? {node : Uuid} {source : ScriptSource} {script : Script}
    {names : List String} {branches : List (String × Target)}
    (h : d.currentNode? = some ⟨node, .story source script names, branches⟩) :
    d.arrival d.current = .ok (.story script) := by
  unfold currentNode? at h
  obtain ⟨nodes, hnodes, hn⟩ := Option.bind_eq_some_iff.mp h
  simp only [arrival, nodeAt, hnodes, hn]

theorem currentScript?_of_arrival (h : ∀ script, d.arrival d.current ≠ .ok (.story script)) :
    d.currentScript? = none := by
  unfold currentScript?
  split
  · rename_i hnode
    exact absurd (arrival_of_currentNode? hnode) (h _)
  · rfl

theorem currentCharacter_of_arrival (h : ∀ script, d.arrival d.current ≠ .ok (.story script))
    (key : String) : d.currentCharacter key = .error .notAStory := by
  unfold currentCharacter
  split
  · rename_i hnode
    exact absurd (arrival_of_currentNode? hnode) (h _)
  · rfl

theorem astray_of_enter {t : Target} {e : ChainError} (hopen : d.ended = false)
    (h : d.enter maxTransferHops t = (.error e, d')) : Astray d d' := by
  obtain ⟨last, hwalk, hstops⟩ := exists_stops t d
  rw [h] at hstops
  obtain ⟨hroot, hgraphs, hended⟩ := hops_keep hwalk
  obtain ⟨⟨hroot', hgraphs', hended'⟩, hoff⟩ := hstops.off
  exact ⟨hroot'.trans hroot, hgraphs'.trans hgraphs, hopen, hended'.trans (hended.trans hopen),
    currentScript?_of_arrival hoff, currentCharacter_of_arrival hoff⟩

theorem astray_of_leaveBy {outlet : String} {e : ChainError}
    (h : d.leaveBy outlet = (.error e, d')) : Astray d d' := by
  have hleaves := leaves_leaveBy d outlet
  generalize hr : d.leaveBy outlet = r at hleaves
  rw [h] at hr
  cases hleaves with
  | ended | stays => simp at hr
  | lost hopen hat =>
    obtain ⟨_, rfl⟩ := Prod.mk.inj hr
    have hoff : ∀ script, d'.arrival d'.current ≠ .ok (.story script) := by simp [arrival, hat]
    exact ⟨rfl, rfl, hopen, hopen, currentScript?_of_arrival hoff,
      currentCharacter_of_arrival hoff⟩
  | enters hopen _ => exact astray_of_enter hopen hr.symm

/-- A cursor that went astray from a story is no longer where it was. -/
theorem Astray.moved {script : Script} (h : Astray d d') (hscript : d.currentScript? = some script) :
    d'.current ≠ d.current := by
  intro hsame
  have hnode : d'.currentNode? = d.currentNode? := by
    rw [currentNode?, currentNode?, nodes?, nodes?, h.graphs, hsame]
  have hsame : d'.currentScript? = d.currentScript? := by
    rw [currentScript?, currentScript?, hnode]
  rw [h.script, hscript] at hsame
  simp at hsame

end

end Chain

namespace Player

open Script (Sentence Say Conditional)

variable {D : Type}

/-- The player as it is, under another director. -/
def under (p : Player D) (d : D) : Player D := { p with director := d }

def Attempt.under (a : Attempt D) (d : D) : Attempt D :=
  match a with
  | .ok p => .ok (p.under d)
  | .error (e, p) => .error (e, p.under d)

def Outcome.under (d : D) : Outcome D → Outcome D
  | .done p => .done (p.under d)
  | .failed e p => .failed e (p.under d)
  | .unfinished p => .unfinished (p.under d)

end Player

/-- The sentence may ask the director for something. -/
def Script.Sentence.asks : Script.Sentence → Bool
  | .say line => line.speaker != ""
  | .jump _ => true
  | .command _ => true
  | _ => false

namespace Player

open Script (Sentence Say Conditional)

variable {D : Type}

/-- The next turn of the player may ask its director for something. -/
def asks (p : Player D) : Bool :=
  p.script.any fun script =>
    match script.sentence? p.index with
    | none => true
    | some s => (p.redirect? script s).isNone && s.asks

/-- The first player in a run that asks its director. -/
def asking? [Director D] : Nat → Player D → Option (Player D)
  | 0, _ => none
  | turns + 1, p =>
    if p.status = .running then
      if p.asks then some p
      else
        match p.turn with
        | .ok next => asking? turns next
        | .error _ => none
    else none

/-- The first player that asks its director in the run to which a request leads. -/
def askingOf? [Director D] (turns : Nat) (p : Player D) (r : Request) : Option (Player D) :=
  match p.resume r with
  | .ok q => asking? turns q
  | .error _ => none

/-- No request of a session makes the player ask its director. -/
def Unasked [Director D] (turns : Nat) : Outcome D → List Request → Prop
  | _, [] => True
  | o, r :: rs =>
    askingOf? turns o.player r = none ∧ Unasked turns (o.player.answer turns r) rs

section
variable {p q : Player D} (d : D)

@[simp] theorem under_status : (p.under d).status = p.status := rfl

@[simp] theorem under_script : (p.under d).script = p.script := rfl

@[simp] theorem under_index : (p.under d).index = p.index := rfl

@[simp] theorem player_under (o : Outcome D) : (o.under d).player = o.player.under d := by
  cases o <;> rfl

theorem showText_under (p : Player D) (content : String) :
    (p.under d).showText content = (p.showText content).under d := by
  unfold showText under
  cases Template.render? p.store content <;> rfl

theorem executeConditional_under (p : Player D) (c : Conditional) :
    (p.under d).executeConditional c = (p.executeConditional c).under d := by
  have hentry : ((p.under d).pushScope p.index).entry p.index c =
      (p.pushScope p.index).entry p.index c := entry_congr (by rfl) p.index c
  unfold executeConditional
  simp only [under_index, hentry]
  cases (p.pushScope p.index).entry p.index c <;> rfl

theorem settle_under (p : Player D) : (p.under d).settle = p.settle.under d := by
  unfold settle under
  dsimp only
  split <;> rfl

theorem resume_under (p : Player D) (r : Request) :
    (p.under d).resume r = (p.resume r).map (Player.under · d) := by
  have hmenu : (p.under d).waitingMenu? = p.waitingMenu? := rfl
  cases r with
  | proceed =>
    simp only [resume, under_status, hmenu]
    split
    · cases p.waitingMenu? <;> rfl
    · rfl
  | choose k =>
    simp only [resume, under_status, hmenu]
    split
    · cases p.waitingMenu? with
      | none => rfl
      | some m => cases hm : m.options[k]? <;> simp only [hm] <;> rfl
    · rfl

variable [Director D]

theorem execute_under (p : Player D) {s : Sentence} (h : s.asks = false) :
    (p.under d).execute s = (p.execute s).under d := by
  cases s with
  | say line =>
    have hspeaker : line.speaker = "" := by simpa [Sentence.asks] using h
    have hsay : ∀ r : Player D, r.execute (.say line) = r.clearCharacter.showText line.text := by
      intro r
      rw [execute, executeSay, if_pos hspeaker]
      rfl
    rw [hsay, hsay]
    exact showText_under d p.clearCharacter line.text
  | conditional c => exact executeConditional_under d p c
  | jump label => simp [Sentence.asks] at h
  | command c => simp [Sentence.asks] at h
  | close | menu | option | branch | otherwise => rfl

/-- A turn that asks the director for nothing is the same under each. -/
theorem turn_under (h : p.asks = false) : (p.under d).turn = p.turn.under d := by
  cases hscript : p.script with
  | none =>
    simp only [turn, under_script, hscript]
    rfl
  | some script =>
    rw [asks, hscript, Option.any_some] at h
    cases hs : script.sentence? p.index with
    | none => simp [hs] at h
    | some s =>
      cases hr : p.redirect? script s with
      | some target =>
        rw [turn_of_redirect hscript hs hr, turn_of_redirect (p := p.under d) hscript hs hr]
        rfl
      | none =>
        have hquiet : s.asks = false := by simpa [hs, hr] using h
        have hexecute := execute_under d { p with moved := false } hquiet
        rw [turn_of_execute hscript hs hr]
        refine (turn_of_execute (p := p.under d) hscript hs hr).trans ?_
        refine (congrArg (Except.map settle) hexecute).trans ?_
        cases execute { p with moved := false } s with
        | ok q => exact congrArg Except.ok (settle_under d q)
        | error failure => rfl

theorem run_under {turns : Nat} (h : asking? turns p = none) :
    run turns (p.under d) = (run turns p).under d := by
  induction turns generalizing p with
  | zero =>
    by_cases hrunning : p.status = .running <;> simp [run, hrunning, Outcome.under]
  | succ turns ih =>
    by_cases hrunning : p.status = .running
    · rw [asking?, if_pos hrunning] at h
      cases hasks : p.asks with
      | true => simp [hasks] at h
      | false =>
        rw [hasks, if_neg Bool.false_ne_true] at h
        simp only [run, under_status, if_pos hrunning, turn_under d hasks]
        rcases hturn : p.turn with failure | q
        · rfl
        · rw [hturn] at h
          exact ih h
    · rw [run_of_not_running hrunning, run_of_not_running (p := p.under d) hrunning]
      rfl

-- Up to the first player that asks its director, the runs are the same under each.
theorem run_of_asking {turns : Nat} {x : Player D} (h : asking? turns p = some x) :
    x.status = .running ∧ x.asks = true ∧ ∃ left, run turns p = run (left + 1) x ∧
      run turns (p.under d) = run (left + 1) (x.under d) := by
  induction turns generalizing p with
  | zero => simp [asking?] at h
  | succ turns ih =>
    by_cases hrunning : p.status = .running
    · rw [asking?, if_pos hrunning] at h
      cases hasks : p.asks with
      | true =>
        rw [hasks, if_pos rfl] at h
        obtain rfl := Option.some.inj h
        exact ⟨hrunning, hasks, turns, rfl, rfl⟩
      | false =>
        rw [hasks, if_neg Bool.false_ne_true] at h
        simp only [run, under_status, if_pos hrunning, turn_under d hasks]
        rcases hturn : p.turn with failure | q <;> rw [hturn] at h
        · simp at h
        · exact ih h
    · simp [asking?, hrunning] at h

theorem answer_under {turns : Nat} {r : Request} (h : askingOf? turns p r = none) :
    (p.under d).answer turns r = (p.answer turns r).under d := by
  have hresume := resume_under d p r
  unfold askingOf? at h
  cases hr : p.resume r with
  | error e =>
    rw [hr] at hresume
    rw [answer_of_refuse hr, answer_of_refuse hresume]
    rfl
  | ok q =>
    rw [hr] at hresume h
    rw [answer_of_resume hr, answer_of_resume hresume]
    exact run_under d h

theorem answers_under {turns : Nat} {o : Outcome D} {rs : List Request}
    (h : Unasked turns o rs) :
    answers turns (o.under d) rs = (answers turns o rs).map (Outcome.under d) := by
  induction rs generalizing o with
  | nil => rfl
  | cons r rs ih =>
    obtain ⟨hasking, hrest⟩ := h
    simp only [answers, List.map_cons, player_under, answer_under d hasking, ih hrest]

end

section
variable {p x y : Player Chain} {line : Say}

theorem say_of_asks (hasks : p.asks = true) (hs : p.sentence? = some (.say line)) :
    line.speaker ≠ "" ∧ ∃ script, p.script = some script ∧
      script.sentence? p.index = some (.say line) := by
  obtain ⟨script, hscript, hs⟩ := Option.bind_eq_some_iff.mp hs
  refine ⟨?_, script, hscript, hs⟩
  intro hspeaker
  simp [asks, hscript, hs, Sentence.asks, hspeaker] at hasks

theorem setCharacter_eq {script : Script} (hscript : p.script = some script)
    (key extra : String) : p.setCharacter key extra = match p.director.currentCharacter key with
      | .ok name => .ok (p.shows (.character name extra))
      | .error _ => .error (.unknownCharacter key p.index p.currentText, p) := by
  have hname : Director.character? p.director script key =
      (p.director.currentCharacter key).toOption := rfl
  rw [setCharacter, hscript, Option.bind_some, hname]
  cases p.director.currentCharacter key <;> rfl

theorem turn_astray (hoff : ∀ key, p.director.currentCharacter key = .error .notAStory)
    (hasks : p.asks = true) (hs : p.sentence? = some (.say line)) : p.turn =
      .error (.unknownCharacter line.speaker p.index p.currentText, { p with moved := false }) := by
  obtain ⟨hspeaker, script, hscript, hsay⟩ := say_of_asks hasks hs
  rw [turn_of_execute hscript hsay (redirect?_of_plain rfl), execute, executeSay,
    if_neg hspeaker, setCharacter_eq (by exact hscript)]
  simp only [hoff]
  rfl

/-- On a story that binds the speaker, a line can only fail for its text. -/
theorem turn_bound {name : String} (hname : p.director.currentCharacter line.speaker = .ok name)
    (hrunning : p.status = .running) (hasks : p.asks = true)
    (hs : p.sentence? = some (.say line)) :
    (∃ q, p.turn = .ok q ∧ q.status = .suspended) ∨
      ∃ q, p.turn = .error (.unbalancedBraces line.text, q) := by
  obtain ⟨hspeaker, script, hscript, hsay⟩ := say_of_asks hasks hs
  rw [turn_of_execute hscript hsay (redirect?_of_plain rfl), execute, executeSay,
    if_neg hspeaker, setCharacter_eq (by exact hscript)]
  simp only [hname, Attempt.andThen, showText, shows]
  cases Template.render? p.store line.text with
  | none => exact .inr ⟨_, rfl⟩
  | some text =>
    refine .inl ⟨_, congrArg Except.ok (settle_waiting (by rfl) (by exact hrunning)), rfl⟩

theorem answer_astray {turns : Nat} {r : Request} {d : Chain}
    (hoff : ∀ key, d.currentCharacter key = .error .notAStory)
    (hasking : askingOf? turns x r = some y) (hs : y.sentence? = some (.say line)) :
    (∃ q, (x.under d).answer turns r =
      .failed (.unknownCharacter line.speaker y.index y.currentText) q ∧ q.status = .idle) ∧
    ∀ name, y.director.currentCharacter line.speaker = .ok name →
      ∀ f, (x.answer turns r).error? = some f → f = .unbalancedBraces line.text := by
  have hresume := resume_under d x r
  unfold askingOf? at hasking
  cases hr : x.resume r with
  | error f => simp [hr] at hasking
  | ok q =>
    rw [hr] at hresume hasking
    obtain ⟨hrunning, hasks, left, hrun, hrunastray⟩ := run_of_asking d hasking
    constructor
    · -- Astray: the turn that asks fails.
      have hturn := turn_astray (p := y.under d) hoff hasks hs
      rw [answer_of_resume hresume]
      refine ⟨abort { y.under d with moved := false }, ?_, rfl⟩
      rw [hrunastray]
      simp only [run, under_status, if_pos hrunning, hturn]
      rfl
    · -- On the story: the line is shown and waits, or its text is at fault.
      intro name hname f hf
      rw [answer_of_resume hr, hrun] at hf
      simp only [run, if_pos hrunning] at hf
      rcases turn_bound hname hrunning hasks hs with ⟨z, hturn, hz⟩ | ⟨z, hturn⟩ <;>
        rw [hturn] at hf <;> dsimp only at hf
      · rw [run_of_not_running (by simp [hz])] at hf
        simp [Outcome.error?] at hf
      · exact (Option.some.inj hf).symm

end

/-- A host whose jump fails is left with a player that waits as before and a chain that is off
every story. The requests after it are answered as without the jump while none makes the player
ask its chain. The first line with a speaker fails, which it would not do on the story. -/
theorem goes_on_astray {p : Player Chain} {outlet : String} {e : ChainError} {d : Chain}
    (hwaits : p.status = .suspended) (h : p.director.leaveBy outlet = (.error e, d)) :
    p.director.Astray d ∧
    (∀ script, p.director.currentScript? = some script → d.current ≠ p.director.current) ∧
    ∀ turns, p.jump turns outlet = .failed (.chain e) (p.under d) ∧
      (∀ rs, Unasked turns (.done p) rs → answers turns (.done (p.under d)) rs =
        (answers turns (.done p) rs).map (Outcome.under d)) ∧
      ∀ (x y : Player Chain) r line, askingOf? turns x r = some y →
        y.sentence? = some (.say line) →
        (∃ q, (x.under d).answer turns r =
          .failed (.unknownCharacter line.speaker y.index y.currentText) q ∧ q.status = .idle) ∧
        ∀ name, y.director.currentCharacter line.speaker = .ok name →
          ∀ f, (x.answer turns r).error? = some f → f = .unbalancedBraces line.text := by
  have hastray := Chain.astray_of_leaveBy h
  refine ⟨hastray, fun script => hastray.moved, fun turns => ⟨?_, ?_, ?_⟩⟩
  · rw [jump, if_pos hwaits, leave_eq, h]
    rfl
  · intro rs hrs
    exact answers_under d hrs
  · intro x y r line hasking hs
    exact answer_astray hastray.character hasking hs

/-- A player at the first line of the story before the spiral. -/
def besideSpiral : Player Chain := ((Player.new Chain.spiralChain .empty).start 9).player

/-- The jump into the spiral fails. The line that comes next then fails for its speaker. -/
theorem goes_on_beside_spiral :
    besideSpiral.status = .suspended ∧
    besideSpiral.director.leaveBy defaultOutlet =
      (.error (.callDepthExceeded Chain.maxCallDepth), Chain.spiralBottom) ∧
    besideSpiral.director.Astray Chain.spiralBottom ∧
    besideSpiral.jump 9 defaultOutlet = .failed (.chain (.callDepthExceeded Chain.maxCallDepth))
      (besideSpiral.under Chain.spiralBottom) ∧
    ∃ q, (besideSpiral.under Chain.spiralBottom).answer 9 .proceed =
      .failed (.unknownCharacter "Ann" 1 "Ann: two") q ∧ q.status = .idle := by
  have hwaits : besideSpiral.status = .suspended := by rfl
  have hleave : besideSpiral.director.leaveBy defaultOutlet =
      (.error (.callDepthExceeded Chain.maxCallDepth), Chain.spiralBottom) := Chain.next_spiral
  obtain ⟨hastray, _, hrest⟩ := goes_on_astray hwaits hleave
  obtain ⟨hjump, _, hlines⟩ := hrest 9
  have hasking : askingOf? 9 besideSpiral .proceed =
      some { besideSpiral with index := 1, status := .running } := by rfl
  have hline := (hlines besideSpiral _ .proceed ⟨"Ann", "", "two"⟩ hasking rfl).1
  exact ⟨hwaits, hleave, hastray, hjump, hline⟩

/-- Without the jump the line is shown, under the name that the story binds to the speaker. -/
theorem proceed_beside_spiral :
    let p := besideSpiral
    let q := (p.jump 9 defaultOutlet).player
    Chain.spiral.Keyed ∧
    Chain.build .standard Chain.spiral (.ofNat 1) = .ok Chain.spiralChain ∧
    p.status = .suspended ∧
    (p.jump 9 defaultOutlet).error? = some (.chain (.callDepthExceeded Chain.maxCallDepth)) ∧
    q.director.current ≠ p.director.current ∧ q.director.stack ≠ p.director.stack ∧
    q.director.currentScript? ≠ q.script ∧
    (q.proceed 9).error? = some (.unknownCharacter "Ann" 1 "Ann: two") ∧
    (p.proceed 9).error? = none ∧
    (p.proceed 9).player.events = p.events ++ [.character "Anna" "", .text "two"] := by
  intro p q
  have hjump : p.jump 9 defaultOutlet = .failed (.chain (.callDepthExceeded Chain.maxCallDepth))
      (p.under Chain.spiralBottom) := by
    have hleave : p.director.leaveBy defaultOutlet =
        (.error (.callDepthExceeded Chain.maxCallDepth), Chain.spiralBottom) := Chain.next_spiral
    rw [jump, if_pos (by rfl), leave_eq, hleave]
    rfl
  have hq : q = p.under Chain.spiralBottom := congrArg Outcome.player hjump
  refine ⟨Chain.keyed_spiral, Chain.build_spiral, rfl, ?_, ?_, ?_, ?_, ?_, rfl, rfl⟩
  · rw [hjump]
    rfl
  · rw [hq]
    decide
  · rw [hq]
    exact List.cons_ne_nil _ _
  · rw [hq]
    exact nofun
  · rw [hq]
    rfl

end Player

end Fabula
