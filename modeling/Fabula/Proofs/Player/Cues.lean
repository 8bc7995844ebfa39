import Fabula.Proofs.Player.Course
import Fabula.Proofs.Player.Failures
import Fabula.Proofs.Script.Compiled

/-!
# Cues

A cue is a call of the host to a player whose scripts are directed on their own. Whatever the cues
before it, one that returns leaves the player settled: it waits on a line or a menu with all of its
state, or its run is over and nothing of it is left.
-/

namespace Fabula

/-- The script was compiled from a text. -/
def Script.Compiled (script : Script) : Prop :=
  ∃ name text, Compiler.standard.compile name text = .ok script

theorem Script.Compiled.grown {script : Script} (h : script.Compiled) : Grown script.sentences := by
  obtain ⟨name, text, hcompile⟩ := h
  exact Compiler.grown_of_compile hcompile

/-- Errors with which a player refuses a call. -/
inductive RunError.Refusal : RunError → Prop
  | notRunning : Refusal .notRunning
  | noActiveMenu : Refusal .noActiveMenu
  | invalidChoice (chosen available : Nat) : Refusal (.invalidChoice chosen available)

namespace Player

open Script (Sentence Say Menu Conditional Grown)

/-- What a host calls. -/
inductive Cue where
  | play (script : Script) (callback : Bool)
  | proceed
  | choose (option : Nat)
  | goto (index : Nat)
  | jump (outlet : String)
  | next

def Cue.resumes : Cue → Bool
  | .play _ _ => false
  | _ => true

/-- A cue to play brings a script that was compiled. -/
def Cue.Compiled : Cue → Prop
  | .play script _ => script.Compiled
  | _ => True

def take (turns : Nat) (p : Player SingleScript) : Cue → Outcome SingleScript
  | .play script callback => p.play turns script callback
  | .proceed => p.proceed turns
  | .choose option => p.choose turns option
  | .goto index => p.resumeAt turns index
  | .jump outlet => p.jump turns outlet
  | .next => p.jump turns defaultOutlet

/-- Goes on as `q`, if the player waits. -/
def goOn (p q : Player SingleScript) : Except RunError (Player SingleScript) :=
  if p.status = .suspended then .ok { q with status := .running } else .error .notRunning

/-- The player that a cue sets running, unless the player refuses it. -/
def prompt (p : Player SingleScript) : Cue → Except RunError (Player SingleScript)
  | .play script callback => .ok (p.started script callback)
  | .proceed => p.resume .proceed
  | .choose option => p.resume (.choose option)
  | .goto index => p.goOn { p with index }
  | .jump _ => p.goOn p.advance
  | .next => p.goOn p.advance

/-- The sentences of the script that a cue plays. -/
def span (p : Player SingleScript) : Cue → Nat
  | .play script _ => script.size
  | _ => (p.script.map Script.size).getD 0

/-- What the player plays, if it plays anything, was compiled. -/
def Reads (p : Player SingleScript) : Prop := ∀ script, p.script = some script → script.Compiled

/-- A player after calls that returned. Before each the host may bind the characters anew and set
the variables. -/
inductive Cued : Player SingleScript → Prop
  | new (director : SingleScript) (store : Store) : Cued (.new director store)
  | set {p : Player SingleScript} (director : SingleScript) (store : Store) : Cued p →
      Cued { p with director, store }
  | take {p : Player SingleScript} {turns : Nat} {a : Cue} : Cued p → a.Compiled →
      (p.take turns a).returned = true → Cued (p.take turns a).player

/-- The player stands on a sentence that waits. A menu there is open and can be chosen from. -/
inductive Waits {D : Type} (p : Player D) : Prop
  | line {script : Script} {line : Say} : p.script = some script → p.index < script.size →
      script.sentence? p.index = some (.say line) → Waits p
  | menu {script : Script} {m : Menu} : p.script = some script → p.index < script.size →
      script.sentence? p.index = some (.menu m) → p.scopes.head? = some p.index →
      p.waitingMenu? = some m → Waits p

/-- A player between two calls. -/
structure Settled {D : Type} (p : Player D) : Prop where
  halted : p.status ≠ .running
  waits : p.status = .suspended → Waits p
  cleared : p.status = .idle ∨ p.status = .finished → p.scopes = [] ∧ p.awaited = none

section
variable {p q : Player SingleScript} {a : Cue}

theorem answer_eq (turns : Nat) (p : Player SingleScript) (r : Request) :
    p.answer turns r = match p.resume r with
      | .ok q => run turns q
      | .error e => .failed e p := by
  cases hr : p.resume r with
  | ok q => exact answer_of_resume hr
  | error e => exact answer_of_refuse hr

theorem resumeAt_eq (turns : Nat) (p : Player SingleScript) (index : Nat) :
    p.resumeAt turns index = match p.goOn { p with index } with
      | .ok q => run turns q
      | .error e => .failed e p := by
  unfold resumeAt goOn
  split <;> rfl

/-- Jumps lead nowhere, so the script goes on with its next sentence. -/
theorem jump_eq (turns : Nat) (p : Player SingleScript) (outlet : String) :
    p.jump turns outlet = match p.goOn p.advance with
      | .ok q => run turns q
      | .error e => .failed e p := by
  have hleave : p.leave outlet = .ok p.advance := rfl
  unfold jump goOn
  by_cases hwaits : p.status = .suspended
  · have hopen : p.advance.status ≠ .finished := by
      intro hfinished
      simp [advance, goto, hwaits] at hfinished
    rw [if_pos hwaits, if_pos hwaits, hleave]
    exact if_neg hopen
  · rw [if_neg hwaits, if_neg hwaits]

theorem take_eq (turns : Nat) (p : Player SingleScript) (a : Cue) :
    p.take turns a = match p.prompt a with
      | .ok q => run turns q
      | .error e => .failed e p := by
  cases a with
  | play script callback => rfl
  | proceed => exact answer_eq turns p .proceed
  | choose option => exact answer_eq turns p (.choose option)
  | goto index => exact resumeAt_eq turns p index
  | jump outlet => exact jump_eq turns p outlet
  | next => exact jump_eq turns p defaultOutlet

theorem goOn_eq_ok {r : Player SingleScript} (h : p.goOn r = .ok q) :
    p.status = .suspended ∧ q = { r with status := .running } := by
  unfold goOn at h
  split at h
  · rename_i hwaits
    exact ⟨hwaits, (Except.ok.inj h).symm⟩
  · simp at h

theorem goOn_eq_error {r : Player SingleScript} {e : RunError} (h : p.goOn r = .error e) :
    e.Refusal ∧ (e = .notRunning ↔ p.status ≠ .suspended) := by
  unfold goOn at h
  split at h
  · simp at h
  · rename_i hwaits
    obtain rfl := Except.error.inj h
    exact ⟨.notRunning, by simpa using hwaits⟩

theorem resume_eq_error {D : Type} {p : Player D} {r : Request} {e : RunError}
    (h : p.resume r = .error e) :
    e.Refusal ∧ (e = .notRunning ↔ p.status ≠ .suspended) := by
  by_cases hwaits : p.status = .suspended
  · cases r with
    | proceed => simp [resume, hwaits] at h
    | choose k =>
      simp only [resume, if_pos hwaits] at h
      split at h
      · obtain rfl := Except.error.inj h
        exact ⟨.noActiveMenu, by simp [hwaits]⟩
      · split at h
        · obtain rfl := Except.error.inj h
          exact ⟨.invalidChoice _ _, by simp [hwaits]⟩
        · simp at h
  · have he : e = .notRunning := by
      cases r <;> simp only [resume, if_neg hwaits] at h <;> exact (Except.error.inj h).symm
    rw [he]
    exact ⟨.notRunning, by simpa using hwaits⟩

theorem prompt_eq_error {e : RunError} (h : p.prompt a = .error e) :
    a.resumes = true ∧ e.Refusal ∧ (e = .notRunning ↔ p.status ≠ .suspended) := by
  cases a with
  | play script callback => simp [prompt] at h
  | proceed => exact ⟨rfl, resume_eq_error (r := .proceed) h⟩
  | choose option => exact ⟨rfl, resume_eq_error (r := .choose option) h⟩
  | goto index => exact ⟨rfl, goOn_eq_error h⟩
  | jump outlet => exact ⟨rfl, goOn_eq_error h⟩
  | next => exact ⟨rfl, goOn_eq_error h⟩

/-- A cue that is not refused brings its own script, or goes on in the script that waits. -/
theorem prompt_eq_ok (h : p.prompt a = .ok q) :
    (∃ script callback, a = .play script callback ∧ q = p.started script callback) ∨
      a.resumes = true ∧ p.status = .suspended ∧ q.status = .running ∧ q.script = p.script := by
  have hresume : ∀ r, p.resume r = .ok q →
      p.status = .suspended ∧ q.status = .running ∧ q.script = p.script := by
    intro r hr
    obtain ⟨hwaits, hrunning⟩ := resume_running hr
    exact ⟨hwaits, hrunning, (resume_keeps hr).1⟩
  have hgo : ∀ r : Player SingleScript, r.script = p.script → p.goOn r = .ok q →
      p.status = .suspended ∧ q.status = .running ∧ q.script = p.script := by
    intro r hscript hr
    obtain ⟨hwaits, rfl⟩ := goOn_eq_ok hr
    exact ⟨hwaits, rfl, hscript⟩
  cases a with
  | play script callback => exact .inl ⟨script, callback, rfl, (Except.ok.inj h).symm⟩
  | proceed => exact .inr ⟨rfl, hresume .proceed h⟩
  | choose option => exact .inr ⟨rfl, hresume (.choose option) h⟩
  | goto index => exact .inr ⟨rfl, hgo { p with index } rfl h⟩
  | jump outlet => exact .inr ⟨rfl, hgo p.advance rfl h⟩
  | next => exact .inr ⟨rfl, hgo p.advance rfl h⟩

theorem prompt_running (h : p.prompt a = .ok q) : q.status = .running := by
  rcases prompt_eq_ok h with ⟨_, _, _, rfl⟩ | ⟨_, _, hrunning, _⟩
  · rfl
  · exact hrunning

theorem prompt_script (hreads : Reads p) (ha : a.Compiled) (h : p.prompt a = .ok q) :
    Reads q ∧ (q.script.map Script.size).getD 0 = p.span a := by
  rcases prompt_eq_ok h with ⟨script, callback, rfl, rfl⟩ | ⟨hresumes, _, _, hscript⟩
  · refine ⟨?_, rfl⟩
    intro other hother
    obtain rfl : script = other := Option.some.inj hother
    exact ha
  · rw [Reads, hscript]
    refine ⟨hreads, ?_⟩
    cases a with
    | play script callback => simp [Cue.resumes] at hresumes
    | proceed | choose | goto | jump | next => rfl

variable {script : Script}

theorem turn_without_script (h : p.script = none) : p.turn = .ok p.finish := by
  simp only [turn, h]

theorem settled_finish (p : Player SingleScript) : Settled p.finish :=
  ⟨by simp [finish], by simp [finish], fun _ => ⟨rfl, rfl⟩⟩

theorem settled_abort (p : Player SingleScript) : Settled p.abort :=
  ⟨by simp [abort], by simp [abort], fun _ => ⟨rfl, rfl⟩⟩

theorem settled_of_turn (hg : Grown script.sentences) (hscript : p.script = some script)
    (hrunning : p.status = .running) (h : p.turn = .ok q) :
    q.status = .running ∨ Settled q := by
  cases turns_of_turn hg hscript hrunning h with
  | ended => exact .inr (settled_finish p)
  | said events hs =>
    have hlt := (List.getElem?_eq_some_iff.mp hs).1
    exact .inr ⟨by simp, fun _ => .line hscript hlt hs, by simp⟩
  | offered hs =>
    have hlt := (List.getElem?_eq_some_iff.mp hs).1
    have hopen := waitingMenu?_of_menu hscript hs
    exact .inr ⟨by simp, fun _ => .menu hscript hlt hs rfl (hopen _), by simp⟩
  | redirected | entered | closed | jumped | marked => exact .inl hrunning

theorem Trips.not_refusal {D : Type} [Director D] {d : D} {q : Player D} {e : RunError}
    (h : Trips script d q e) : ¬ e.Refusal := by
  rintro ⟨⟩ <;> rcases h with ⟨⟨⟩⟩

theorem turn_eq_error {e : RunError} (hg : Grown script.sentences)
    (hscript : p.script = some script) (h : p.turn = .error (e, q)) :
    ¬ e.Refusal ∧ q.script = some script := by
  obtain ⟨hkept, htrips⟩ := trips_turn hg hscript h
  exact ⟨htrips.not_refusal, hkept.trans hscript⟩

/-- What a run says that returned. -/
structure Rests (p : Player SingleScript) (o : Outcome SingleScript) : Prop where
  settled : Settled o.player
  script : o.player.script = p.script
  failure : ∀ e, o.error? = some e → ¬ e.Refusal ∧ o.player.status = .idle

-- By induction on the turns: what a turn fails with is no refusal, and a turn that does not run on
-- settles the player.
theorem rests_run {turns : Nat} (hreads : Reads p) (hrunning : p.status = .running)
    (h : (run turns p).returned = true) : Rests p (run turns p) := by
  induction turns generalizing p with
  | zero => simp [run, hrunning, Outcome.returned] at h
  | succ turns ih =>
    simp only [run, if_pos hrunning] at h ⊢
    cases hscript : p.script with
    | none =>
      simp only [turn_without_script hscript] at h ⊢
      have hover := settled_finish p
      rw [run_of_not_running hover.halted]
      exact ⟨hover, rfl, by simp [Outcome.error?]⟩
    | some script =>
      have hg := (hreads script hscript).grown
      rcases hturn : p.turn with ⟨e, q⟩ | q <;> rw [hturn] at h <;> dsimp only
      · obtain ⟨hrefusal, hkept⟩ := turn_eq_error hg hscript hturn
        refine ⟨settled_abort q, hkept.trans hscript.symm, ?_⟩
        intro f hf
        obtain rfl := Option.some.inj hf
        exact ⟨hrefusal, rfl⟩
      · have hkept := (turn_keeps hg hscript hrunning hturn).1.trans hscript.symm
        rcases settled_of_turn hg hscript hrunning hturn with hq | hq
        · have hrests := ih (by rw [Reads, hkept]; exact hreads) hq h
          exact ⟨hrests.settled, hrests.script.trans hkept, hrests.failure⟩
        · rw [run_of_not_running hq.halted]
          exact ⟨hq, hkept, by simp [Outcome.error?]⟩

-- The index grows with each turn that runs on, so one turn for each sentence that is left, and one
-- to finish, are enough.
theorem returned_of_left {turns : Nat} (hg : Grown script.sentences)
    (hscript : p.script = some script) (h : script.size - p.index < turns) :
    (run turns p).returned = true := by
  induction turns generalizing p with
  | zero => omega
  | succ turns ih =>
    by_cases hrunning : p.status = .running
    · simp only [run, if_pos hrunning]
      rcases hturn : p.turn with failure | q
      · rfl
      · by_cases hq : q.status = .running
        · obtain ⟨hforward, hsize⟩ := turn_forward hg hscript hrunning hturn hq
          exact ih (turn_keeps hg hscript hrunning hturn).1 (by omega)
        · dsimp only
          rw [run_of_not_running hq]
          rfl
    · rw [run_of_not_running hrunning]
      rfl

theorem returned_of_span {turns : Nat} (hreads : Reads p)
    (h : (p.script.map Script.size).getD 0 < turns) : (run turns p).returned = true := by
  cases hscript : p.script with
  | some script =>
    rw [hscript, Option.map_some, Option.getD_some] at h
    exact returned_of_left (hreads script hscript).grown hscript (by omega)
  | none =>
    obtain ⟨more, rfl⟩ := Nat.exists_eq_succ_of_ne_zero (Nat.ne_zero_of_lt h)
    by_cases hrunning : p.status = .running
    · simp only [run, if_pos hrunning, turn_without_script hscript]
      rw [run_of_not_running (settled_finish p).halted]
      rfl
    · rw [run_of_not_running hrunning]
      rfl

/-- What a call says that returned. -/
structure Verdict (p : Player SingleScript) (a : Cue) (o : Outcome SingleScript) : Prop where
  settled : Settled o.player
  notRunning : o.error? = some .notRunning ↔ a.resumes = true ∧ p.status ≠ .suspended
  refused : ∀ e, o.error? = some e → e.Refusal → o.player = p
  aborted : ∀ e, o.error? = some e → ¬ e.Refusal → o.player.status = .idle

theorem verdict_of_refuse {e : RunError} (hp : Settled p) (h : p.prompt a = .error e) :
    Verdict p a (.failed e p) := by
  obtain ⟨hresumes, hrefusal, hnot⟩ := prompt_eq_error h
  refine ⟨hp, ?_, fun _ _ _ => rfl, ?_⟩
  · simpa [Outcome.error?, hresumes] using hnot
  · intro f hf hopen
    obtain rfl := Option.some.inj hf
    exact absurd hrefusal hopen

theorem verdict_of_prompt {o : Outcome SingleScript} (h : p.prompt a = .ok q) (ho : Rests q o) :
    Verdict p a o := by
  refine ⟨ho.settled, ⟨?_, ?_⟩, ?_, fun e he _ => (ho.failure e he).2⟩
  · intro he
    exact absurd .notRunning (ho.failure _ he).1
  · rintro ⟨hresumes, hidle⟩
    rcases prompt_eq_ok h with ⟨script, callback, rfl, _⟩ | ⟨_, hwaits, _⟩
    · simp [Cue.resumes] at hresumes
    · exact absurd hwaits hidle
  · intro e he hrefusal
    exact absurd hrefusal (ho.failure e he).1

theorem verdict_take {turns : Nat} (hp : Settled p) (hreads : Reads p) (ha : a.Compiled)
    (h : (p.take turns a).returned = true) :
    Verdict p a (p.take turns a) ∧ Reads (p.take turns a).player := by
  rw [take_eq] at h ⊢
  cases hprompt : p.prompt a with
  | error e => exact ⟨verdict_of_refuse hp hprompt, hreads⟩
  | ok q =>
    rw [hprompt] at h
    have hq := (prompt_script hreads ha hprompt).1
    have hrests := rests_run hq (prompt_running hprompt) h
    refine ⟨verdict_of_prompt hprompt hrests, ?_⟩
    dsimp only
    rw [Reads, hrests.script]
    exact hq

theorem returned_take {turns : Nat} (hreads : Reads p) (ha : a.Compiled) (h : p.span a < turns) :
    (p.take turns a).returned = true := by
  rw [take_eq]
  cases hprompt : p.prompt a with
  | error e => rfl
  | ok q =>
    obtain ⟨hq, hspan⟩ := prompt_script hreads ha hprompt
    exact returned_of_span hq (by rwa [hspan])

theorem Settled.set (h : Settled p) (director : SingleScript) (store : Store) :
    Settled { p with director, store } := by
  refine ⟨h.halted, ?_, h.cleared⟩
  intro hwaits
  cases h.waits hwaits with
  | line hscript hlt hs => exact .line hscript hlt hs
  | menu hscript hlt hs hhead hm => exact .menu hscript hlt hs hhead hm

theorem Cued.settled (h : Cued p) : Settled p ∧ Reads p := by
  induction h with
  | new director store =>
    refine ⟨⟨by simp [Player.new], by simp [Player.new], fun _ => ⟨rfl, rfl⟩⟩, ?_⟩
    intro script hscript
    simp [Player.new] at hscript
  | set director store _ ih => exact ⟨ih.1.set director store, ih.2⟩
  | take _ ha h ih =>
    obtain ⟨hverdict, hreads⟩ := verdict_take ih.1 ih.2 ha h
    exact ⟨hverdict.settled, hreads⟩

end

/-- Between its calls a player is settled. A call returns, and says why if it comes to nothing. -/
theorem settled_after_cues {p : Player SingleScript} (hp : Cued p) (a : Cue) (ha : a.Compiled) :
    Settled p ∧ ∀ turns, (p.span a < turns → (p.take turns a).returned = true) ∧
      ((p.take turns a).returned = true → Verdict p a (p.take turns a)) := by
  obtain ⟨hsettled, hreads⟩ := hp.settled
  refine ⟨hsettled, fun turns => ⟨returned_take hreads ha, ?_⟩⟩
  intro h
  exact (verdict_take hsettled hreads ha h).1

/-- A menu before a line. -/
def doorway : Script := ⟨"t", [.menu ⟨[⟨"a", 2⟩], some 3⟩, .option "a" 0, .say ⟨"", "", "in"⟩,
  .close, .say ⟨"", "", "out"⟩], [], [], []⟩

theorem compiled_doorway : doorway.Compiled := ⟨"t", "[Menu]\n- a\n: in\n/\n: out", by rfl⟩

/-- The host goes past the menu and leaves it open. It can no longer be chosen from, and the
player waits as before. -/
theorem choose_past_doorway :
    let begun := ((Player.new ⟨none⟩ .empty).take 6 (.play doorway true)).player
    let p := (begun.take 6 (.goto 4)).player
    Cued p ∧ (Cue.choose 0).Compiled ∧ p.index = 4 ∧ p.scopes = [0] ∧
      (p.take 6 (.choose 0)).error? = some .noActiveMenu ∧
      Settled p ∧ (p.take 6 (.choose 0)).player = p := by
  intro begun p
  have hbegun : Cued begun := .take (.new ⟨none⟩ .empty) compiled_doorway (by rfl)
  have hp : Cued p := .take hbegun trivial (by rfl)
  obtain ⟨hsettled, hcalls⟩ := settled_after_cues hp (.choose 0) trivial
  have hverdict := (hcalls 6).2 (by rfl)
  have herror : (p.take 6 (.choose 0)).error? = some .noActiveMenu := by rfl
  exact ⟨hp, trivial, rfl, rfl, herror, hsettled, hverdict.refused _ herror .noActiveMenu⟩

end Player

end Fabula
