import Fabula.Proofs.Player.Cues
import Fabula.Proofs.Player.Tour
import Fabula.Proofs.Script.Remarks

/-!
# Speakers

A script that was compiled without a remark about a speaker, with a name for each of its
characters, never comes to a speaker who stands for nobody: neither when it is directed on its own,
whatever the host calls, nor when the player comes to its story on a tour.
-/

namespace Fabula

open Chain (Walked)
open Script (Say Grown)

/-- No speaker of the script is remarked on, and each of its characters has a name. -/
structure Script.Covered (script : Script) (names : List String) : Prop where
  compiled : script.Compiled
  silent : ∀ d ∈ script.warnings, ∀ speaker, d.warning ≠ .undeclaredCharacter speaker
  enough : script.characters.length ≤ names.length

/-- Whoever speaks in a covered script stands for someone. -/
theorem Script.Covered.bound {script : Script} {names : List String} {line : Say}
    (h : script.Covered names) (hline : .say line ∈ script.sentences) (hspeaker : line.speaker ≠ "") :
    ∃ name, SingleScript.character? ⟨some names⟩ script line.speaker = some name := by
  obtain ⟨source, text, hcompile⟩ := h.compiled
  have hdeclared := (Compiler.declared_of_compile hcompile h.silent line hline).resolve_left hspeaker
  obtain ⟨i, hi⟩ := Option.isSome_iff_exists.mp (List.isSome_idxOf?.mpr hdeclared)
  obtain ⟨hlt, _⟩ := List.idxOf?_eq_some_iff.mp hi
  refine ⟨names.get ⟨i, Nat.lt_of_lt_of_le hlt h.enough⟩, ?_⟩
  simp [SingleScript.character?, characterIndex?, hi]

namespace Player

/-- A cue to play brings a covered script. -/
def Cue.Covered (names : List String) : Cue → Prop
  | .play script _ => script.Covered names
  | _ => True

/-- A player with the names, after calls that returned. Before each the host may set the
variables. -/
inductive Rehearsed (names : List String) : Player SingleScript → Prop
  | new (store : Store) : Rehearsed names (.new ⟨some names⟩ store)
  | set {p : Player SingleScript} (store : Store) : Rehearsed names p →
      Rehearsed names { p with store }
  | take {p : Player SingleScript} {turns : Nat} {a : Cue} : Rehearsed names p → a.Covered names →
      (p.take turns a).returned = true → Rehearsed names (p.take turns a).player

/-- The player has the names, and they cover what it plays. -/
structure Cast (names : List String) (p : Player SingleScript) : Prop where
  bound : p.director = ⟨some names⟩
  covered : ∀ script, p.script = some script → script.Covered names

section
variable {names : List String} {p q : Player SingleScript} {a : Cue} {e : RunError}

theorem Cast.of_turn (h : Cast names p) (hrunning : p.status = .running) (hturn : p.turn = .ok q) :
    Cast names q := by
  cases hscript : p.script with
  | none =>
    rw [turn_without_script hscript] at hturn
    obtain rfl := Except.ok.inj hturn
    exact ⟨h.bound, h.covered⟩
  | some script =>
    have hg := (h.covered script hscript).compiled.grown
    cases turns_of_turn hg hscript hrunning hturn <;> exact ⟨h.bound, h.covered⟩

theorem Cast.of_failure (h : Cast names p) (hturn : p.turn = .error (e, q)) :
    Cast names q.abort ∧ e.Malformed := by
  cases hscript : p.script with
  | none => simp [turn_without_script hscript] at hturn
  | some script =>
    have hcovered := h.covered script hscript
    obtain ⟨hkept, htrips⟩ := trips_turn hcovered.compiled.grown hscript hturn
    cases htrips with
    | malformed he hdirector =>
      refine ⟨⟨hdirector.trans h.bound, fun other hother => ?_⟩, he⟩
      exact h.covered other (hkept.symm.trans hother)
    | unbound index sentence hline hspeaker hnone =>
      obtain ⟨name, hname⟩ := hcovered.bound hline hspeaker
      rw [h.bound] at hnone
      exact absurd (hname.symm.trans hnone) (Option.some_ne_none name)
    | led hled =>
      -- a director of one script always says where to go
      rcases hled with ⟨_, hled⟩ | hled <;> cases hled

theorem Cast.run (h : Cast names p) (turns : Nat) :
    Cast names (run turns p).player ∧ ∀ e, (run turns p).error? = some e → e.Malformed := by
  induction turns generalizing p with
  | zero =>
    unfold Player.run
    split <;> exact ⟨h, by rintro _ ⟨⟩⟩
  | succ turns ih =>
    by_cases hrunning : p.status = .running
    · simp only [Player.run, if_pos hrunning]
      rcases hturn : p.turn with ⟨e, failed⟩ | q
      · obtain ⟨hfailed, hmalformed⟩ := h.of_failure hturn
        refine ⟨hfailed, ?_⟩
        rintro _ ⟨⟩
        exact hmalformed
      · exact ih (h.of_turn hrunning hturn)
    · rw [run_of_not_running hrunning]
      exact ⟨h, by rintro _ ⟨⟩⟩

theorem Cast.prompt (h : Cast names p) (ha : a.Covered names) (hprompt : p.prompt a = .ok q) :
    Cast names q := by
  have hresume : ∀ r, p.resume r = .ok q → Cast names q := by
    intro r hr
    obtain ⟨hscript, hdirector, _⟩ := resume_keeps hr
    refine ⟨hdirector.trans h.bound, ?_⟩
    rw [hscript]
    exact h.covered
  have hgo : ∀ r, Cast names r → p.goOn r = .ok q → Cast names q := by
    intro r hr hgo
    obtain ⟨_, rfl⟩ := goOn_eq_ok hgo
    exact ⟨hr.bound, hr.covered⟩
  cases a with
  | play script callback =>
    obtain rfl := Except.ok.inj hprompt
    refine ⟨h.bound, ?_⟩
    rintro _ ⟨⟩
    exact ha
  | proceed => exact hresume .proceed hprompt
  | choose option => exact hresume (.choose option) hprompt
  | goto index => exact hgo { p with index } ⟨h.bound, h.covered⟩ hprompt
  | jump outlet => exact hgo p.advance ⟨h.bound, h.covered⟩ hprompt
  | next => exact hgo p.advance ⟨h.bound, h.covered⟩ hprompt

theorem Cast.take (h : Cast names p) (ha : a.Covered names) (turns : Nat) :
    Cast names (p.take turns a).player ∧ ∀ e, (p.take turns a).error? = some e →
      e.Malformed ∨ e.Refusal ∧ (p.take turns a).player = p := by
  rw [take_eq]
  cases hprompt : p.prompt a with
  | error e =>
    refine ⟨h, ?_⟩
    rintro _ ⟨⟩
    exact .inr ⟨(prompt_eq_error hprompt).2.1, rfl⟩
  | ok q =>
    obtain ⟨hcast, hmalformed⟩ := (h.prompt ha hprompt).run turns
    exact ⟨hcast, fun e he => .inl (hmalformed e he)⟩

theorem Rehearsed.cast (h : Rehearsed names p) : Cast names p := by
  induction h with
  | new store => exact ⟨rfl, by simp [Player.new]⟩
  | set store _ ih => exact ⟨ih.bound, ih.covered⟩
  | take _ ha _ ih => exact (ih.take ha _).1

end

/-- What the calls of a tour have led to. Before each the host may set the variables. -/
inductive Travelled (c : Chain) : Outcome Chain → Prop
  | new (store : Store) : Travelled c (.done (.new c store))
  | set {o : Outcome Chain} (store : Store) : Travelled c o → o.returned = true →
      Travelled c (.done { o.player with store })
  | start {o : Outcome Chain} (turns : Nat) : Travelled c o → o.returned = true →
      Travelled c (o.player.start turns)
  | nudge {o : Outcome Chain} (turns : Nat) (a : Nudge) : Travelled c o → o.returned = true →
      Travelled c (o.player.nudge turns a)

/-- An error that a speaker stands for nobody tells of a story that is not covered. -/
def Tells (o : Outcome Chain) : Prop :=
  ∀ key index sentence, o.error? = some (.unknownCharacter key index sentence) →
    ∃ script names, o.player.director.OnStory script names ∧ ¬ script.Covered names

section
variable {c : Chain} {p q : Player Chain} {o : Outcome Chain}

theorem not_covered_of_turn {script : Script} {names : List String} {key sentence : String}
    {index : Nat} (hg : Grown script.sentences) (hscript : p.script = some script)
    (hstory : p.director.OnStory script names)
    (hturn : p.turn = .error (.unknownCharacter key index sentence, q)) :
    q.director = p.director ∧ ¬ script.Covered names := by
  cases (trips_turn hg hscript hturn).2 with
  | malformed he => cases he
  | unbound index sentence hline hspeaker hnone hdirector =>
    refine ⟨hdirector, fun hcovered => ?_⟩
    obtain ⟨name, hname⟩ := hcovered.bound hline hspeaker
    rw [hstory.character?] at hnone
    exact absurd (hname.symm.trans hnone) (Option.some_ne_none name)

theorem refusal_of_nudged {a : Nudge} {e : RunError} (h : p.nudged a = .error e) : e.Refusal := by
  cases a with
  | request r => exact (resume_eq_error h).1
  | goto index =>
    simp only [nudged] at h
    split at h
    · simp at h
    · obtain rfl := Except.error.inj h
      exact .notRunning

variable (hg : ∀ script ∈ c.scripts, Grown script.sentences)
include hg

theorem tells_run {store : Store} (h : OnStage p) (hp : Fit c store p) (turns : Nat) :
    Tells (run turns p) := by
  induction turns generalizing p with
  | zero =>
    unfold run
    split <;> rintro _ _ _ ⟨⟩
  | succ turns ih =>
    by_cases hrunning : p.status = .running
    · have hgrown : ∀ script, p.script = some script → Grown script.sentences :=
        fun script hscript => hg script (hp.script script hscript)
      have hstrides := strides_turn hgrown hrunning
      simp only [run, if_pos hrunning]
      rcases hturn : p.turn with ⟨e, failed⟩ | next
      · rintro key index sentence ⟨⟩
        obtain ⟨script, names, hstory, hscript⟩ := h (.inl hrunning)
        obtain ⟨hdirector, hcovered⟩ :=
          not_covered_of_turn (hgrown script hscript) hscript hstory hturn
        refine ⟨script, names, ?_, hcovered⟩
        have habort : failed.abort.director = p.director := hdirector
        rw [Outcome.player, habort]
        exact hstory
      · rw [hturn] at hstrides
        exact ih (h.turn hgrown hrunning hturn) (hp.of_ok hstrides)
    · rw [run_of_not_running hrunning]
      rintro _ _ _ ⟨⟩

theorem tells_start {store : Store} (hp : Fit c store p) (turns : Nat) :
    Tells (p.start turns) := by
  rcases start_cases hp with ⟨q, hstage, hfit, hstart⟩ | ⟨o, hstart, _, hchain⟩
  · rw [hstart]
    exact tells_run hg hstage hfit turns
  · rw [hstart]
    intro key index sentence he
    obtain ⟨f, hf⟩ := hchain _ he
    simp at hf

theorem tells_nudge {store : Store} (h : OnStage p) (hp : Fit c store p) (turns : Nat) (a : Nudge) :
    Tells (p.nudge turns a) := by
  rw [nudge_eq]
  cases hn : p.nudged a with
  | error e =>
    rintro key index sentence ⟨⟩
    cases refusal_of_nudged hn
  | ok q =>
    obtain ⟨hfit, hstage⟩ := hp.nudged h hn
    exact tells_run hg hstage hfit turns

theorem Travelled.tells (hc : Walked c c) (h : Travelled c o) :
    Fit c o.player.store o.player ∧ OnStage o.player ∧ Tells o := by
  have hask : ∀ {p : Player Chain} (turns : Nat) (a : HostCall), Fit c p.store p →
      Fit c (p.ask turns a).player.store (p.ask turns a).player := by
    intro p turns a hp
    have hasked := hp.ask hg turns a
    exact ⟨hasked.walked, rfl, hasked.script⟩
  induction h with
  | new store => exact ⟨fit_new hc store, onStage_of_rest (.inl rfl), nofun⟩
  | set store _ _ ih =>
    obtain ⟨hfit, hstage, _⟩ := ih
    exact ⟨⟨hfit.walked, rfl, hfit.script⟩, hstage, nofun⟩
  | start turns _ _ ih =>
    obtain ⟨hfit, _, _⟩ := ih
    exact ⟨hask turns .start hfit, onStage_start hg hfit turns, tells_start hg hfit turns⟩
  | nudge turns a _ _ ih =>
    obtain ⟨hfit, hstage, _⟩ := ih
    refine ⟨?_, hstage.nudge hg hfit turns a, tells_nudge hg hstage hfit turns a⟩
    rw [← ask_call]
    exact hask turns a.call hfit

end

/-- Whatever the host calls, a player that is given covered scripts fails, if it does not refuse the
call, on a text or a condition; and on a tour no speaker stands for nobody in a story that the
story's names cover. -/
theorem everyone_stands_for_someone :
    (∀ names p, Rehearsed names p → ∀ a : Cue, a.Covered names → ∀ turns e,
      (p.take turns a).error? = some e → e.Malformed ∨ e.Refusal ∧ (p.take turns a).player = p) ∧
    ∀ l root c, Chain.build .standard l root = .ok c → ∀ o, Travelled c o →
      (∀ script names, o.player.director.OnStory script names → script.Covered names) →
      ∀ key index sentence, o.error? ≠ some (.unknownCharacter key index sentence) := by
  constructor
  · intro names p hp a ha turns e he
    exact (hp.cast.take ha turns).2 e he
  · intro l root c hc o ho hcovered key index sentence he
    have hg : ∀ script ∈ c.scripts, Grown script.sentences := fun script hscript =>
      Chain.grown_of_mem_scripts hc hscript
    obtain ⟨script, names, hstory, hnot⟩ :=
      (ho.tells hg (Chain.walked_of_build hc)).2.2 key index sentence he
    exact hnot (hcovered script names hstory)

/-- A text whose brace is never closed. -/
def stammer : Script := ⟨"t", [.say ⟨"Ann", "", "\x7b"⟩], ["Ann"], [], []⟩

theorem covered_stammer : stammer.Covered ["Anna"] :=
  ⟨⟨"t", "[Char] Ann\nAnn: \x7b", by rfl⟩, nofun, Nat.le_refl 1⟩

theorem covered_signpostScript : signpostScript.Covered ["Anna"] :=
  ⟨⟨"b", "[Char] Ann\n[Jump] inn\nAnn: two", by rfl⟩, nofun, Nat.le_refl 1⟩

/-- Ann speaks under her name, in a text that is malformed and in the second story of a tour. -/
theorem ann_stands_for_anna :
    let p := Player.new ⟨some ["Anna"]⟩ .empty
    let a := Cue.play stammer false
    let o := ((Player.new signpostChain .empty).start 9).player.nudge 9 (.request .proceed)
    Rehearsed ["Anna"] p ∧ a.Covered ["Anna"] ∧
      (p.take 2 a).error? = some (.unbalancedBraces "\x7b") ∧
      (RunError.unbalancedBraces "\x7b").Malformed ∧
      Chain.build .standard signpost (.ofNat 1) = .ok signpostChain ∧ Travelled signpostChain o ∧
      o.player.director.OnStory signpostScript ["Anna"] ∧
      ∀ key index sentence, o.error? ≠ some (.unknownCharacter key index sentence) := by
  intro p a o
  obtain ⟨halone, htour⟩ := everyone_stands_for_someone
  have hp : Rehearsed ["Anna"] p := .new .empty
  have herror : (p.take 2 a).error? = some (.unbalancedBraces "\x7b") := by rfl
  have hmalformed : (RunError.unbalancedBraces "\x7b").Malformed := by
    rcases halone ["Anna"] p hp a covered_stammer 2 _ herror with hmalformed | ⟨hrefusal, _⟩
    · exact hmalformed
    · cases hrefusal
  have ho : Travelled signpostChain o :=
    .nudge 9 (.request .proceed) (.start 9 (.new .empty) rfl) rfl
  have hstory : o.player.director.OnStory signpostScript ["Anna"] := ⟨rfl, _, _, _, rfl⟩
  refine ⟨hp, covered_stammer, herror, hmalformed, build_signpost, ho, hstory, ?_⟩
  refine htour signpost (.ofNat 1) signpostChain build_signpost o ho ?_
  intro script names hother
  obtain ⟨_, _, _, hnode⟩ := hother.node
  cases hnode
  exact covered_signpostScript

end Player

end Fabula
