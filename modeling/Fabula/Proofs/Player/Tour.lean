import Fabula.Proofs.Player.Alone

/-!
# Tours

On a tour of the stories of a chain a host starts a player and nudges it on; it makes no jumps of
its own. The player then always plays the story on which its chain stands. From its arrival at a
story to the turn that leaves it, it plays as it would alone.
-/

namespace Fabula.Player

open Chain (Walked)
open Script (Grown)

def Nudge.call : Nudge → HostCall
  | .request .proceed => .proceed
  | .request (.choose option) => .choose option
  | .goto index => .goto index

theorem ask_call (turns : Nat) (p : Player Chain) (a : Nudge) :
    p.ask turns a.call = p.nudge turns a := by
  rcases a with (_ | _) | _ <;> rfl

/-- What the calls of a tour have led to. The next one waits for the last to return. -/
inductive Toured (c : Chain) (store : Store) : Outcome Chain → Prop
  | new : Toured c store (.done (.new c store))
  | start {o : Outcome Chain} (turns : Nat) : Toured c store o → o.returned = true →
      Toured c store (o.player.start turns)
  | nudge {o : Outcome Chain} (turns : Nat) (a : Nudge) : Toured c store o → o.returned = true →
      Toured c store (o.player.nudge turns a)

/-- A player as its tour comes to a story, at the start or in the turn of a call under way. -/
inductive Arrives (c : Chain) (store : Store) (p : Player Chain) : Prop
  | start {o : Outcome Chain} : Toured c store o → o.returned = true →
      o.player.start 0 = .unfinished p → Arrives c store p
  | turn {o : Outcome Chain} : Toured c store o → o.player.status = .running →
      o.player.turn = .ok p → p.status = .running → p.index = 0 → Arrives c store p

/-- A player that runs or waits plays the story on which its chain stands. -/
def OnStage (p : Player Chain) : Prop :=
  p.status = .running ∨ p.status = .suspended →
    ∃ script names, p.director.OnStory script names ∧ p.script = some script

section
variable {p q : Player Chain}

theorem onStage_of_rest (h : p.status = .idle ∨ p.status = .finished) : OnStage p := by
  intro hgoing
  rcases h with h | h <;> simp [h] at hgoing

theorem onStage_of_arrival {script : Script} (hscript : p.script = some script)
    (hopen : p.director.ended = false)
    (hat : p.director.arrival p.director.current = .ok (.story script)) : OnStage p := by
  intro _
  obtain ⟨names, hstory⟩ := Chain.onStory_of_arrival hopen hat
  exact ⟨script, names, hstory, hscript⟩

theorem OnStage.settle (h : OnStage p) : OnStage p.settle := by
  intro hgoing
  unfold Player.settle at *
  split at hgoing
  · rename_i hpauses
    rw [Bool.and_eq_true, decide_eq_true_eq] at hpauses
    rw [if_pos (by simpa using hpauses)]
    exact h (.inl hpauses.2)
  · rename_i hstays
    rw [if_neg hstays]
    exact h hgoing

theorem OnStage.leave {outlet : String} (h : OnStage p) (hrunning : p.status = .running)
    (hleave : p.leave outlet = .ok q) : OnStage q := by
  rw [leave_eq] at hleave
  rcases hled : p.director.leaveBy outlet with ⟨e | (script | _ | _), d⟩ <;>
    rw [hled] at hleave
  · simp at hleave
  · obtain rfl := Except.ok.inj hleave
    obtain ⟨hat, hopen⟩ := Chain.leaveBy_story hled
    exact onStage_of_arrival (by rfl) hopen hat
  · obtain rfl := Except.ok.inj hleave
    obtain rfl := Chain.leaveBy_stay hled
    exact fun _ => h (.inl hrunning)
  · obtain rfl := Except.ok.inj hleave
    exact onStage_of_rest (.inr rfl)

theorem onStage_atEnd (hend : p.atEnd = .ok q) : OnStage q := by
  rw [atEnd_eq] at hend
  rcases hled : p.director.leaveBy defaultOutlet with ⟨e | (script | _ | _), d⟩ <;>
    rw [hled] at hend
  · simp at hend
  · obtain rfl := Except.ok.inj hend
    obtain ⟨hat, hopen⟩ := Chain.leaveBy_story hled
    exact onStage_of_arrival (by rfl) hopen hat
  · obtain rfl := Except.ok.inj hend
    exact onStage_of_rest (.inr rfl)
  · obtain rfl := Except.ok.inj hend
    exact onStage_of_rest (.inr rfl)

theorem OnStage.turn (hg : ∀ script, p.script = some script → Grown script.sentences)
    (h : OnStage p) (hrunning : p.status = .running) (hturn : p.turn = .ok q) : OnStage q := by
  obtain ⟨script, names, hstory, hscript⟩ := h (.inl hrunning)
  cases hleaves : p.leaves with
  | false =>
    -- the turn is that of a player alone, who has no other story to go to
    have hmirrors := mirrors_alone (hscript.trans hstory.currentScript?.symm) names
    have hagrees := hmirrors.turn hstory (hg script hscript) hleaves
    generalize (p.alone names).turn = alone at hagrees
    rw [hturn] at hagrees
    cases hagrees with
    | ok hnext =>
      intro _
      refine ⟨script, names, ?_, hnext.loaded.trans hstory.currentScript?⟩
      rw [hnext.chain]
      exact hstory
  | true =>
    rw [leaves, hscript, Option.any_some] at hleaves
    cases hs : script.sentence? p.index with
    | none =>
      simp only [Player.turn, hscript, hs] at hturn
      exact onStage_atEnd hturn
    | some s =>
      cases s with
      | jump label =>
        rw [turn_of_execute hscript hs (redirect?_of_plain rfl)] at hturn
        have hbegun : OnStage { p with moved := false } := h
        cases he : execute { p with moved := false } (.jump label) with
        | error failure => simp [he, Except.map] at hturn
        | ok r =>
          rw [he] at hturn
          obtain rfl := Except.ok.inj hturn
          refine OnStage.settle ?_
          cases label with
          | some label => exact hbegun.leave hrunning he
          | none => exact hbegun.leave hrunning he
      | _ => simp [hs] at hleaves

end

section
variable {c : Chain} {store : Store} {p q : Player Chain} {o : Outcome Chain}

theorem Toured.fit (hg : ∀ script ∈ c.scripts, Grown script.sentences) (hc : Walked c c)
    (h : Toured c store o) : Fit c store o.player := by
  induction h with
  | new => exact fit_new hc store
  | start turns _ _ ih => exact ih.ask hg turns .start
  | nudge turns a _ _ ih =>
    rw [← ask_call]
    exact ih.ask hg turns a.call

theorem Fit.nudged {a : Nudge} (hp : Fit c store p) (h : OnStage p) (hn : p.nudged a = .ok q) :
    Fit c store q ∧ OnStage q := by
  obtain ⟨hwaits, index, events, rfl⟩ := nudged_eq_ok hn
  exact ⟨⟨hp.walked, hp.store, hp.script⟩, fun _ => h (.inr hwaits)⟩

/-- A player that starts is on stage and runs, or its start is answered at once. -/
theorem start_cases (hp : Fit c store p) :
    (∃ q, OnStage q ∧ Fit c store q ∧ ∀ turns, p.start turns = run turns q) ∨
      ∃ o : Outcome Chain, (∀ turns, p.start turns = o) ∧ OnStage o.player ∧
        ∀ e, o.error? = some e → ∃ f, e = .chain f := by
  have hwalked := hp.walked.reset
  have hbegin : (p.begin false).director = p.director := rfl
  unfold start
  rcases hreset : p.director.reset with ⟨e | (script | _ | _), d⟩ <;>
    rw [hreset] at hwalked <;> simp only [hbegin, hreset]
  · refine .inr ⟨_, fun _ => rfl, onStage_of_rest (.inl rfl), ?_⟩
    rintro _ ⟨⟩
    exact ⟨e, rfl⟩
  · obtain ⟨hat, hopen⟩ := Chain.enter_story hreset
    have hfit : Fit c store (started { p with director := d } script false) := by
      refine ⟨hwalked, hp.store, fun other hother => ?_⟩
      obtain rfl : script = other := Option.some.inj hother
      exact hwalked.story_mem hat
    exact .inl ⟨_, onStage_of_arrival (by rfl) hopen hat, hfit, fun _ => rfl⟩
  · exact .inr ⟨_, fun _ => rfl, onStage_of_rest (.inr rfl), nofun⟩
  · exact .inr ⟨_, fun _ => rfl, onStage_of_rest (.inr rfl), nofun⟩

variable (hg : ∀ script ∈ c.scripts, Grown script.sentences)
include hg

theorem OnStage.run (h : OnStage p) (hp : Fit c store p) (turns : Nat) :
    OnStage (run turns p).player := by
  induction turns generalizing p with
  | zero =>
    unfold Player.run
    split <;> exact h
  | succ turns ih =>
    by_cases hrunning : p.status = .running
    · have hgrown : ∀ script, p.script = some script → Grown script.sentences :=
        fun script hscript => hg script (hp.script script hscript)
      have hstrides := strides_turn hgrown hrunning
      simp only [Player.run, if_pos hrunning]
      rcases hturn : p.turn with ⟨e, failed⟩ | next
      · exact onStage_of_rest (.inl rfl)
      · rw [hturn] at hstrides
        exact ih (h.turn hgrown hrunning hturn) (hp.of_ok hstrides)
    · rw [run_of_not_running hrunning]
      exact h

theorem onStage_start (hp : Fit c store p) (turns : Nat) : OnStage (p.start turns).player := by
  rcases start_cases hp with ⟨q, hstage, hfit, hstart⟩ | ⟨o, hstart, hstage, _⟩
  · rw [hstart]
    exact OnStage.run hg hstage hfit turns
  · rw [hstart]
    exact hstage

theorem OnStage.nudge (h : OnStage p) (hp : Fit c store p) (turns : Nat) (a : Nudge) :
    OnStage (p.nudge turns a).player := by
  rw [nudge_eq]
  cases hn : p.nudged a with
  | error e => exact h
  | ok q =>
    obtain ⟨hfit, hstage⟩ := hp.nudged h hn
    exact OnStage.run hg hstage hfit turns

theorem Toured.onStage (hc : Walked c c) (h : Toured c store o) : OnStage o.player := by
  induction h with
  | new => exact onStage_of_rest (.inl rfl)
  | start turns ho _ _ => exact onStage_start hg (ho.fit hg hc) turns
  | nudge turns a ho _ ih => exact ih.nudge hg (ho.fit hg hc) turns a

theorem Arrives.arrived (hc : Walked c c) (h : Arrives c store p) : Arrived c store p := by
  cases h with
  | @start o ho _ hstart =>
    have hfit := ho.fit hg hc
    have hwalked := hfit.walked.reset
    have hbegin : (o.player.begin false).director = o.player.director := rfl
    unfold Player.start at hstart
    rcases hreset : o.player.director.reset with ⟨e | (script | _ | _), d⟩ <;>
      rw [hreset] at hwalked <;> simp only [hbegin, hreset] at hstart
    · simp at hstart
    · obtain rfl := Outcome.unfinished.inj hstart
      obtain ⟨hat, hopen⟩ := Chain.enter_story hreset
      refine ⟨d, script, ?_, hwalked, hopen, ?_⟩
      · simp [course, Course.opening, begin, load, hfit.store]
      · rw [← hwalked.arrival_eq]
        exact hat
    · simp at hstart
    · simp at hstart
  | @turn o ho hrunning hturn hnext hindex =>
    have hfit := ho.fit hg hc
    have hstrides := strides_turn (fun script hscript => hg script (hfit.script script hscript))
      hrunning
    rw [hturn] at hstrides
    cases hstrides with
    | keeps _ _ _ hforward =>
      have hlt := (hforward hnext).1
      omega
    | arrives hleave hcourse => exact hfit.arrived hleave hcourse

/-- On arrival a player is where the player is that begins the script alone. -/
theorem Arrived.mirrors (h : Arrived c store p) : ∃ script names, Grown script.sentences ∧
    p.director.OnStory script names ∧ ∀ callback, Mirrors p.director names p.events p
      ((Player.new ⟨some names⟩ store).started script callback) := by
  obtain ⟨d, script, hcourse, hwalked, hopen, hat⟩ := h
  obtain rfl : p.director = d := congrArg Course.director hcourse
  have hscript : p.script = some script := congrArg Course.script hcourse
  have hrunning : p.status = .running := congrArg Course.status hcourse
  have hgrown := hg script (Chain.arrival_story hat)
  rw [← hwalked.arrival_eq] at hat
  obtain ⟨names, hstory⟩ := Chain.onStory_of_arrival hopen hat
  refine ⟨script, names, hgrown, hstory, fun callback => ?_⟩
  exact {
    chain := rfl
    bindings := rfl
    loaded := hscript.trans hstory.currentScript?.symm
    store := (congrArg Course.store hcourse).symm
    script := hscript.symm
    index := (congrArg Course.index hcourse).symm
    scopes := (congrArg Course.scopes hcourse).symm
    status := hrunning.symm
    menu := by simp [waitingMenu?, started, hrunning]
    moved := (congrArg Course.moved hcourse).symm
    events := ⟨[], (List.append_nil _).symm, rfl⟩ }

end

/-- From its arrival at a story, up to a turn that leaves it, a player on a tour goes on as the
player does that begins the story's script alone, under the story's names. -/
theorem plays_as_alone (l : Library) (root : Uuid) {c : Chain}
    (hc : Chain.build .standard l root = .ok c) (store : Store) :
    (∀ o, Toured c store o → OnStage o.player) ∧
    ∀ p, Arrives c store p → ∃ script names, p.director.OnStory script names ∧
      ∀ callback turns calls, StaysFor turns p → Stays (run turns p) calls →
        let o := (Player.new (⟨some names⟩ : SingleScript) store).play turns script callback
        List.Forall₂ (Outcome.Agrees (Mirrors p.director names p.events))
          (run turns p :: nudges (run turns p) calls) (o :: nudges o calls) := by
  have hg : ∀ script ∈ c.scripts, Grown script.sentences := fun script hscript =>
    Chain.grown_of_mem_scripts hc hscript
  have hwalked := Chain.walked_of_build hc
  refine ⟨fun o ho => ho.onStage hg hwalked, fun p hp => ?_⟩
  obtain ⟨script, names, hgrown, hstory, hmirrors⟩ := (hp.arrived hg hwalked).mirrors hg
  refine ⟨script, names, hstory, ?_⟩
  intro callback turns calls hstays hcalls o
  have hplay := (hmirrors callback).run hstory hgrown hstays
  exact .cons hplay (nudges_agree hstory hgrown hplay hcalls)

/-- A story with a jump that leads nowhere, after another story. -/
def signpost : Library := ⟨[
  (.ofNat 1, { Graph.bare (.ofNat 1) (.ofNat 2) (.ofNat 3) "road" with
    stories := [
      .ofKind (.ofNat 4) (.story ⟨⟨"a", ": one"⟩, []⟩),
      .ofKind (.ofNat 5) (.story ⟨⟨"b", "[Char] Ann\n[Jump] inn\nAnn: two"⟩, ["Anna"]⟩)]
    connections := [
      ⟨.ofNat 2, defaultOutlet, .ofNat 4, defaultOutlet⟩,
      ⟨.ofNat 4, defaultOutlet, .ofNat 5, defaultOutlet⟩,
      ⟨.ofNat 5, defaultOutlet, .ofNat 3, defaultOutlet⟩] })]⟩

def signpostScript : Script :=
  ⟨"b", [.jump (some "inn"), .say ⟨"Ann", "", "two"⟩], ["Ann"], ["inn"], []⟩

def signpostChain : Chain where
  root := .ofNat 1
  graphs := [(.ofNat 1, [
    ⟨.ofNat 4, .story ⟨"a", ": one"⟩ ⟨"a", [.say ⟨"", "", "one"⟩], [], [], []⟩ [],
      [(defaultOutlet, ⟨.ofNat 1, 1⟩)]⟩,
    ⟨.ofNat 5, .story ⟨"b", "[Char] Ann\n[Jump] inn\nAnn: two"⟩ signpostScript ["Anna"],
      [(defaultOutlet, ⟨.ofNat 1, 2⟩)]⟩,
    ⟨.ofNat 3, .finish, []⟩])]
  stack := []
  current := ⟨.ofNat 1, 0⟩
  ended := false

theorem build_signpost : Chain.build .standard signpost (.ofNat 1) = .ok signpostChain := by rfl

/-- The end of the first story, when the call has used up its turns. -/
def beforeSignpost : Outcome Chain :=
  ((Player.new signpostChain .empty).start 9).player.nudge 0 (.request .proceed)

theorem toured_beforeSignpost : Toured signpostChain .empty beforeSignpost :=
  .nudge 0 (.request .proceed) (.start 9 .new rfl) rfl

/-- The player as it comes to the second story. -/
def atSignpost : Player Chain := (run 1 beforeSignpost.player).player

theorem arrives_atSignpost : Arrives signpostChain .empty atSignpost :=
  .turn toured_beforeSignpost rfl rfl rfl rfl

/-- The line comes after the jump that leads nowhere, and again when the host has gone back. -/
theorem plays_past_signpost :
    let calls := [(2, .goto 0)]
    let q := (Player.new (⟨some ["Anna"]⟩ : SingleScript) .empty).play 2 signpostScript false
    Chain.build .standard signpost (.ofNat 1) = .ok signpostChain ∧
    Toured signpostChain .empty beforeSignpost ∧ OnStage beforeSignpost.player ∧
    Arrives signpostChain .empty atSignpost ∧ StaysFor 2 atSignpost ∧
    Stays (run 2 atSignpost) calls ∧
    List.Forall₂ (Outcome.Agrees (Mirrors atSignpost.director ["Anna"] atSignpost.events))
      (run 2 atSignpost :: nudges (run 2 atSignpost) calls) (q :: nudges q calls) ∧
    q.player.events = [.visible true, .character "Anna" "", .text "two"] := by
  intro calls q
  have hline : ∀ p : Player Chain, p.script = some signpostScript → p.index = 1 →
      p.status = .running → StaysFor 1 p := by
    intro p hscript hindex hrunning
    refine (staysFor_succ_iff hrunning).mpr ⟨?_, nofun⟩
    simp [leaves, hscript, hindex, signpostScript, Script.sentence?]
  have hstays : StaysFor 2 atSignpost := by
    refine (staysFor_succ_iff rfl).mpr ⟨rfl, ?_⟩
    rintro _ ⟨⟩
    exact hline _ rfl rfl rfl
  have hcalls : Stays (run 2 atSignpost) calls := by
    refine ⟨?_, trivial⟩
    rintro _ ⟨⟩
    refine (staysFor_succ_iff rfl).mpr ⟨rfl, ?_⟩
    rintro _ ⟨⟩
    exact hline _ rfl rfl rfl
  obtain ⟨hstage, hplays⟩ := plays_as_alone signpost (.ofNat 1) build_signpost .empty
  obtain ⟨script, names, hstory, hagrees⟩ := hplays atSignpost arrives_atSignpost
  obtain ⟨_, _, _, hnode⟩ := hstory.node
  cases hnode
  exact ⟨build_signpost, toured_beforeSignpost, hstage _ toured_beforeSignpost, arrives_atSignpost,
    hstays, hcalls, hagrees false 2 calls hstays hcalls, rfl⟩

end Fabula.Player
