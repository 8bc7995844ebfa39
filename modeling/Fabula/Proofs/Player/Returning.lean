import Fabula.Proofs.Player.Arrivals

/-!
# Calls that return

A host starts a player, resumes it, or jumps away from its story, and waits for the call to return.
A call either answers at once or sets the player running.
-/

namespace Fabula.Player

open Chain (Station Walked)
open Script (Grown)

/-- What a host asks of a player that a chain directs. -/
inductive HostCall where
  | start
  | proceed
  | choose (option : Nat)
  | goto (index : Nat)
  | jump (outlet : String)
  | next
deriving DecidableEq, Repr

def ask (turns : Nat) (p : Player Chain) : HostCall → Outcome Chain
  | .start => p.start turns
  | .proceed => p.proceed turns
  | .choose option => p.choose turns option
  | .goto index => p.resumeAt turns index
  | .jump outlet => p.jump turns outlet
  | .next => p.jump turns defaultOutlet

/-- The player that a jump of the host sets running. -/
def depart (p : Player Chain) (outlet : String) : Option (Player Chain) :=
  if p.status = .suspended then
    match p.leave outlet with
    | .ok q => if q.status = .finished then none else some { q with status := .running }
    | .error _ => none
  else none

/-- The player that a call sets running, unless the call is answered at once. -/
def launch (p : Player Chain) : HostCall → Option (Player Chain)
  | .start =>
    match p.director.reset with
    | (.ok (.story script), d) => some (started { p with director := d } script false)
    | _ => none
  | .proceed => (p.resume .proceed).toOption
  | .choose option => (p.resume (.choose option)).toOption
  | .goto index =>
    if p.status = .suspended then some { p with index, status := .running } else none
  | .jump outlet => p.depart outlet
  | .next => p.depart defaultOutlet

/-- The stations at which the turns of a call arrive. -/
def arrivalsOf (turns : Nat) (p : Player Chain) (a : HostCall) : List Station :=
  match p.launch a with
  | some q => arrivals turns q
  | none => []

/-- A new player, or what a call that returned has made of one. -/
inductive Hosted (c : Chain) (store : Store) : Player Chain → Prop
  | new : Hosted c store (.new c store)
  | ask {p : Player Chain} {turns : Nat} (a : HostCall) : Hosted c store p →
      (p.ask turns a).returned = true → Hosted c store (p.ask turns a).player

/-- A call runs a player, or answers at once. -/
inductive Handled (c : Chain) (store : Store) (p : Player Chain) (a : HostCall) : Prop
  | runs {q : Player Chain} : p.launch a = some q → (∀ turns, p.ask turns a = run turns q) →
      Fit c store q → Handled c store p a
  | answers {o : Outcome Chain} : p.launch a = none → (∀ turns, p.ask turns a = o) →
      o.returned = true → Fit c store o.player → Handled c store p a

section
variable {c : Chain} {store : Store} {p : Player Chain}

theorem handled_start (h : Fit c store p) : Handled c store p .start := by
  have hwalked := h.walked.reset
  have hask : ∀ turns, p.ask turns .start = p.start turns := fun _ => rfl
  unfold start at hask
  have hlaunch : p.launch .start = match p.director.reset with
      | (.ok (.story script), d) => some (started { p with director := d } script false)
      | _ => none := rfl
  have hbegin : (p.begin false).director = p.director := rfl
  rcases hreset : p.director.reset with ⟨e | (script | _ | _), d⟩ <;>
    rw [hreset] at hwalked hlaunch <;> simp only [hbegin, hreset] at hask
  · exact .answers hlaunch hask rfl ⟨hwalked, h.store, h.script⟩
  · refine .runs hlaunch hask ⟨hwalked, h.store, fun other hother => ?_⟩
    obtain rfl : script = other := Option.some.inj hother
    exact hwalked.story_mem (Chain.enter_story hreset).1
  · exact .answers hlaunch hask rfl ⟨hwalked, h.store, h.script⟩
  · exact .answers hlaunch hask rfl ⟨hwalked, h.store, h.script⟩

theorem handled_resume {a : HostCall} {r : Request} (h : Fit c store p)
    (hlaunch : p.launch a = (p.resume r).toOption)
    (hask : ∀ turns, p.ask turns a = p.answer turns r) : Handled c store p a := by
  cases hr : p.resume r with
  | ok q =>
    obtain ⟨hscript, hdirector, hstore⟩ := resume_keeps hr
    rw [hr] at hlaunch
    refine .runs hlaunch (fun turns => ?_) ⟨?_, hstore.trans h.store, ?_⟩
    · rw [hask, answer_of_resume hr]
    · rw [hdirector]
      exact h.walked
    · rw [hscript]
      exact h.script
  | error e =>
    rw [hr] at hlaunch
    have hrefused : ∀ turns, p.ask turns a = .failed e p := by
      intro turns
      rw [hask, answer_of_refuse hr]
    exact .answers hlaunch hrefused rfl h

theorem Fit.leave (h : Fit c store p) (outlet : String) :
    match p.leave outlet with
    | .ok q => Fit c store q
    | .error (_, q) => Fit c store q := by
  have hwalked := h.walked.leaveBy outlet
  rw [leave_eq]
  rcases hleave : p.director.leaveBy outlet with ⟨e | (script | _ | _), d⟩ <;>
    rw [hleave] at hwalked
  · exact ⟨hwalked, h.store, h.script⟩
  · refine ⟨hwalked, h.store, fun other hother => ?_⟩
    obtain rfl : script = other := Option.some.inj hother
    exact hwalked.story_mem (Chain.leaveBy_story hleave).1
  · exact ⟨hwalked, h.store, h.script⟩
  · exact ⟨hwalked, h.store, h.script⟩

theorem handled_depart {a : HostCall} (outlet : String) (h : Fit c store p)
    (hlaunch : p.launch a = p.depart outlet)
    (hask : ∀ turns, p.ask turns a = p.jump turns outlet) : Handled c store p a := by
  have hfit := h.leave outlet
  unfold depart at hlaunch
  unfold jump at hask
  by_cases hwaits : p.status = .suspended
  · rw [if_pos hwaits] at hlaunch
    simp only [if_pos hwaits] at hask
    rcases hleave : p.leave outlet with ⟨e, q⟩ | q <;> rw [hleave] at hlaunch hfit <;>
      simp only [hleave] at hask
    · exact .answers hlaunch hask rfl hfit
    · dsimp only at hlaunch
      by_cases hfinished : q.status = .finished
      · rw [if_pos hfinished] at hlaunch
        simp only [if_pos hfinished] at hask
        exact .answers hlaunch hask rfl hfit
      · rw [if_neg hfinished] at hlaunch
        simp only [if_neg hfinished] at hask
        exact .runs hlaunch hask ⟨hfit.walked, hfit.store, hfit.script⟩
  · rw [if_neg hwaits] at hlaunch
    simp only [if_neg hwaits] at hask
    exact .answers hlaunch hask rfl h

theorem handled (h : Fit c store p) (a : HostCall) : Handled c store p a := by
  cases a with
  | start => exact handled_start h
  | proceed => exact handled_resume (r := .proceed) h rfl fun _ => rfl
  | choose option => exact handled_resume (r := .choose option) h rfl fun _ => rfl
  | goto index =>
    have hask : ∀ turns, p.ask turns (.goto index) = p.resumeAt turns index := fun _ => rfl
    have hlaunch : p.launch (.goto index) = if p.status = .suspended
        then some { p with index, status := .running } else none := rfl
    unfold resumeAt at hask
    by_cases hwaits : p.status = .suspended
    · rw [if_pos hwaits] at hlaunch
      simp only [if_pos hwaits] at hask
      exact .runs hlaunch hask ⟨h.walked, h.store, h.script⟩
    · rw [if_neg hwaits] at hlaunch
      simp only [if_neg hwaits] at hask
      exact .answers hlaunch hask rfl h
  | jump outlet => exact handled_depart outlet h rfl fun _ => rfl
  | next => exact handled_depart defaultOutlet h rfl fun _ => rfl

theorem fit_new (hc : Walked c c) (store : Store) : Fit c store (.new c store) := by
  refine ⟨hc, rfl, ?_⟩
  intro script hscript
  simp [Player.new] at hscript

theorem Fit.ask (hg : ∀ script ∈ c.scripts, Grown script.sentences) (h : Fit c store p)
    (turns : Nat) (a : HostCall) : Fit c store (p.ask turns a).player := by
  rcases handled h a with ⟨_, hask, hq⟩ | ⟨_, hask, _, ho⟩
  · rw [hask]
    exact hq.run hg turns
  · rw [hask]
    exact ho

theorem Hosted.fit (hg : ∀ script ∈ c.scripts, Grown script.sentences) (hc : Walked c c)
    (h : Hosted c store p) : Fit c store p := by
  induction h with
  | new => exact fit_new hc store
  | ask a _ _ ih => exact ih.ask hg _ a

end

/-- A call returns exactly if its turns arrive at no station twice. It takes no more turns than the
scripts at which it arrives have sentences, and one for the end of each. -/
theorem returns_iff_nodup_arrivals (l : Library) (root : Uuid) {c : Chain}
    (hc : Chain.build .standard l root = .ok c) (store : Store) {p : Player Chain}
    (hp : Hosted c store p) (a : HostCall) :
    ((∃ turns, (p.ask turns a).returned = true) ↔ ∀ turns, (p.arrivalsOf turns a).Nodup) ∧
    ∀ turns, (p.ask turns a).returned = false →
      turns < ((p.arrivalsOf turns a).length + 1) * (c.longest + 1) := by
  have hg : ∀ script ∈ c.scripts, Grown script.sentences := fun script hscript =>
    Chain.grown_of_mem_scripts hc hscript
  have hfit := hp.fit hg (Chain.walked_of_build hc)
  unfold arrivalsOf
  rcases handled hfit a with ⟨hlaunch, hask, hq⟩ | ⟨hlaunch, hask, hreturned, _⟩
  · rw [hlaunch]
    simp only [hask]
    refine ⟨⟨?_, exists_returned_of_nodup hg hq⟩, fun turns hturns => ?_⟩
    · rintro ⟨enough, henough⟩ turns
      exact nodup_of_returned hg hq henough
    · have hbound := turns_le_of_not_returned hg hq hturns
      have hleft := hq.left_le
      rw [Nat.succ_mul]
      omega
  · rw [hlaunch]
    simp only [hask, hreturned]
    simp

/-- The story waits when it is come to again, so going on returns. -/
theorem proceed_roundabout :
    let p := ((Player.new Chain.roundaboutChain .empty).ask 2 .start).player
    Chain.build .standard Chain.roundabout (.ofNat 1) = .ok Chain.roundaboutChain ∧
      Hosted Chain.roundaboutChain .empty p ∧
      p.arrivalsOf 3 .proceed = [(⟨.ofNat 1, 0⟩, [])] ∧
      (∃ turns, (p.ask turns .proceed).returned = true) ∧
      ∀ turns, (p.arrivalsOf turns .proceed).Nodup := by
  intro p
  have hp : Hosted Chain.roundaboutChain .empty p := .ask .start .new rfl
  have hreturned : (p.ask 3 .proceed).returned = true := by rfl
  have hiff := (returns_iff_nodup_arrivals Chain.roundabout (.ofNat 1) Chain.build_roundabout .empty
    hp .proceed).1
  exact ⟨Chain.build_roundabout, hp, rfl, ⟨3, hreturned⟩, hiff.mp ⟨3, hreturned⟩⟩

/-- A graph of one story, which leads back to itself and holds no sentence. -/
def treadmill : Library := ⟨[
  (.ofNat 1, { Graph.bare (.ofNat 1) (.ofNat 2) (.ofNat 3) "loop" with
    stories := [.ofKind (.ofNat 4) (.story ⟨⟨"a", ""⟩, []⟩)]
    connections := [
      ⟨.ofNat 2, defaultOutlet, .ofNat 4, defaultOutlet⟩,
      ⟨.ofNat 4, defaultOutlet, .ofNat 4, defaultOutlet⟩] })]⟩

def treadmillChain : Chain where
  root := .ofNat 1
  graphs := [(.ofNat 1, [
    ⟨.ofNat 4, .story ⟨"a", ""⟩ ⟨"a", [], [], [], []⟩ [], [(defaultOutlet, ⟨.ofNat 1, 0⟩)]⟩])]
  stack := []
  current := ⟨.ofNat 1, 0⟩
  ended := false

/-- The start of the treadmill never returns. -/
theorem start_treadmill : Chain.build .standard treadmill (.ofNat 1) = .ok treadmillChain ∧
    ∀ store turns, ((Player.new treadmillChain store).ask turns .start).returned = false := by
  refine ⟨rfl, fun store turns => ?_⟩
  let p : Player Chain := started (.new treadmillChain store) ⟨"a", [], [], [], []⟩ false
  have hrunning : p.status = .running := by rfl
  have hturn : p.turn = .ok p := by rfl
  have hrun : (run turns p).returned = false := by
    induction turns with
    | zero => simp [run, hrunning, Outcome.returned]
    | succ turns ih =>
      simp only [run, if_pos hrunning, hturn]
      exact ih
  exact hrun

end Fabula.Player
