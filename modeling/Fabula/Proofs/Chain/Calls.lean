import Fabula.Proofs.Chain.Walker

/-!
# Calls and returns

`Runs` tells a graph by recursion and keeps no stack. A subgraph node whose default outlet leads
somewhere runs the graph that it names to its finish and goes on where the outlet leads. Without
such an outlet the named graph runs in the place of the rest, and its finish ends the graph around
it. A chain tells what its root graph tells, and its depth is the number of calls under way.
-/

namespace Fabula

open Chain (Step)
open Script (Compiler)

/-- Control arrives at a spot, or stands on its story. -/
inductive Control where
  | arrives (s : Spot)
  | stands (s : Spot)

/-- How the run of a graph ends: at its finish, with the outlets that are left, or on a story, with
none left. -/
inductive Ending where
  | finished (rest : List String)
  | waiting
deriving DecidableEq

section
variable (compiler : Compiler) (l : Library)

/-- A run inside `d` calls that takes the outlets in turn and answers steps, each with the number
of calls around it. -/
inductive Runs : Nat → Control → List String → List (Step × Nat) → Ending → Prop
  | story {d : Nat} {s : Spot} {script : Script} {outlets : List String}
      {told : List (Step × Nat)} {e : Ending} :
      l.encounter compiler s = .ok (.story script) → Runs d (.stands s) outlets told e →
      Runs d (.arrives s) outlets ((.story script, d) :: told) e
  | waits {d : Nat} {s : Spot} : Runs d (.stands s) [] [] .waiting
  | stays {d : Nat} {s : Spot} {outlet : String} {rest : List String}
      {told : List (Step × Nat)} {e : Ending} :
      l.onward? s outlet = none → Runs d (.stands s) rest told e →
      Runs d (.stands s) (outlet :: rest) ((.stay, d) :: told) e
  | leaves {d : Nat} {s next : Spot} {outlet : String} {rest : List String}
      {told : List (Step × Nat)} {e : Ending} :
      l.onward? s outlet = some next → Runs d (.arrives next) rest told e →
      Runs d (.stands s) (outlet :: rest) told e
  | finish {d : Nat} {s : Spot} {outlets : List String} :
      l.encounter compiler s = .ok .finish → Runs d (.arrives s) outlets [] (.finished outlets)
  | returns {d : Nat} {s resume : Spot} {called : Uuid} {outlets rest : List String}
      {told more : List (Step × Nat)} {e : Ending} :
      l.encounter compiler s = .ok (.call called (some resume)) →
      Runs (d + 1) (.arrives (l.entrance called)) outlets told (.finished rest) →
      Runs d (.arrives resume) rest more e → Runs d (.arrives s) outlets (told ++ more) e
  | inside {d : Nat} {s resume : Spot} {called : Uuid} {outlets : List String}
      {told : List (Step × Nat)} :
      l.encounter compiler s = .ok (.call called (some resume)) →
      Runs (d + 1) (.arrives (l.entrance called)) outlets told .waiting →
      Runs d (.arrives s) outlets told .waiting
  | tail {d : Nat} {s : Spot} {called : Uuid} {outlets : List String}
      {told : List (Step × Nat)} {e : Ending} :
      l.encounter compiler s = .ok (.call called none) →
      Runs d (.arrives (l.entrance called)) outlets told e → Runs d (.arrives s) outlets told e

/-- What the root graph tells. After its finish every outlet is answered by the end. -/
inductive Tells (root : Uuid) : List String → List (Step × Nat) → Prop
  | waiting {outlets : List String} {told : List (Step × Nat)} :
      Runs compiler l 0 (.arrives (l.entrance root)) outlets told .waiting →
      Tells root outlets told
  | ended {outlets rest : List String} {told : List (Step × Nat)} :
      Runs compiler l 0 (.arrives (l.entrance root)) outlets told (.finished rest) →
      Tells root outlets (told ++ (.ended, 0) :: rest.map fun _ => (.ended, 0))

end

section
variable {compiler : Compiler} {l : Library}

theorem Runs.unique {d : Nat} {here : Control} {outlets : List String}
    {told other : List (Step × Nat)} {e f : Ending} (h : Runs compiler l d here outlets told e)
    (h' : Runs compiler l d here outlets other f) : told = other ∧ e = f := by
  -- Which rule applies is decided by what is met at the spot, or by where the outlet leads, except
  -- that a call may return or not: there the run inside the call decides.
  induction h generalizing other f with
  | story he _ ih =>
    cases h' with
    | story he' hrun =>
      obtain ⟨rfl, rfl⟩ := ih hrun
      rw [he] at he'
      obtain rfl := Encounter.story.inj (Except.ok.inj he')
      exact ⟨rfl, rfl⟩
    | finish he' | returns he' _ _ | inside he' _ | tail he' _ => simp [he] at he'
  | waits =>
    cases h'
    exact ⟨rfl, rfl⟩
  | stays hnone _ ih =>
    cases h' with
    | stays _ hrun =>
      obtain ⟨rfl, rfl⟩ := ih hrun
      exact ⟨rfl, rfl⟩
    | leaves hsome _ => simp [hnone] at hsome
  | leaves hsome _ ih =>
    cases h' with
    | stays hnone _ => simp [hsome] at hnone
    | leaves hsome' hrun =>
      obtain rfl := Option.some.inj (hsome.symm.trans hsome')
      exact ih hrun
  | finish he =>
    cases h' with
    | finish _ => exact ⟨rfl, rfl⟩
    | story he' _ | returns he' _ _ | inside he' _ | tail he' _ => simp [he] at he'
  | returns he _ _ ihcall ihrest =>
    cases h' with
    | returns he' hcall hrest =>
      obtain ⟨rfl, hresume⟩ := Encounter.call.inj (Except.ok.inj (he.symm.trans he'))
      obtain rfl := Option.some.inj hresume
      obtain ⟨rfl, hfinished⟩ := ihcall hcall
      obtain rfl := Ending.finished.inj hfinished
      obtain ⟨rfl, rfl⟩ := ihrest hrest
      exact ⟨rfl, rfl⟩
    | inside he' hcall =>
      obtain ⟨rfl, -⟩ := Encounter.call.inj (Except.ok.inj (he.symm.trans he'))
      have hending := (ihcall hcall).2
      simp at hending
    | story he' _ | finish he' | tail he' _ => simp [he] at he'
  | inside he _ ih =>
    cases h' with
    | returns he' hcall _ =>
      obtain ⟨rfl, -⟩ := Encounter.call.inj (Except.ok.inj (he.symm.trans he'))
      have hending := (ih hcall).2
      simp at hending
    | inside he' hcall =>
      obtain ⟨rfl, -⟩ := Encounter.call.inj (Except.ok.inj (he.symm.trans he'))
      exact ih hcall
    | story he' _ | finish he' | tail he' _ => simp [he] at he'
  | tail he _ ih =>
    cases h' with
    | tail he' hrun =>
      obtain ⟨rfl, -⟩ := Encounter.call.inj (Except.ok.inj (he.symm.trans he'))
      exact ih hrun
    | story he' _ | finish he' | returns he' _ _ | inside he' _ => simp [he] at he'

theorem Tells.unique {root : Uuid} {outlets : List String} {told other : List (Step × Nat)}
    (h : Tells compiler l root outlets told) (h' : Tells compiler l root outlets other) :
    told = other := by
  cases h with
  | waiting hrun =>
    cases h' with
    | waiting hrun' => exact (hrun.unique hrun').1
    | ended hrun' => simpa using (hrun.unique hrun').2
  | ended hrun =>
    cases h' with
    | waiting hrun' => simpa using (hrun.unique hrun').2
    | ended hrun' =>
      obtain ⟨rfl, hending⟩ := hrun.unique hrun'
      rw [Ending.finished.inj hending]

variable (compiler l) in
/-- A run, then the rest of every call around it, the innermost first. -/
inductive Unwinds : List Spot → Control → List String → List (Step × Nat) → Prop
  | waiting {stack : List Spot} {here : Control} {outlets : List String}
      {told : List (Step × Nat)} :
      Runs compiler l stack.length here outlets told .waiting → Unwinds stack here outlets told
  | ended {here : Control} {outlets rest : List String} {told : List (Step × Nat)} :
      Runs compiler l 0 here outlets told (.finished rest) →
      Unwinds [] here outlets (told ++ (.ended, 0) :: rest.map fun _ => (.ended, 0))
  | returns {resume : Spot} {stack : List Spot} {here : Control} {outlets rest : List String}
      {told more : List (Step × Nat)} :
      Runs compiler l (stack.length + 1) here outlets told (.finished rest) →
      Unwinds stack (.arrives resume) rest more →
      Unwinds (resume :: stack) here outlets (told ++ more)

namespace Unwinds

/-- What precedes a run under the same calls precedes it with their returns. -/
theorem after {stack : List Spot} {here next : Control} {outlets rest : List String}
    {told : List (Step × Nat)} (before : List (Step × Nat))
    (hbefore : ∀ {told e}, Runs compiler l stack.length next rest told e →
      Runs compiler l stack.length here outlets (before ++ told) e)
    (h : Unwinds compiler l stack next rest told) :
    Unwinds compiler l stack here outlets (before ++ told) := by
  cases h with
  | waiting hrun => exact .waiting (hbefore hrun)
  | ended hrun =>
    rw [← List.append_assoc]
    exact .ended (hbefore hrun)
  | returns hrun hmore =>
    rw [← List.append_assoc]
    exact .returns (hbefore hrun) hmore

theorem call {stack : List Spot} {s resume : Spot} {called : Uuid} {outlets : List String}
    {told : List (Step × Nat)} (he : l.encounter compiler s = .ok (.call called (some resume)))
    (h : Unwinds compiler l (resume :: stack) (.arrives (l.entrance called)) outlets told) :
    Unwinds compiler l stack (.arrives s) outlets told := by
  cases h with
  | waiting hrun => exact .waiting (.inside he hrun)
  | returns hrun hmore => exact hmore.after _ fun hrest => .returns he hrun hrest

theorem finish_root {s : Spot} (he : l.encounter compiler s = .ok .finish)
    (outlets : List String) :
    Unwinds compiler l [] (.arrives s) outlets
      ((.ended, 0) :: outlets.map fun _ => (.ended, 0)) := by
  have hrun : Runs compiler l 0 (.arrives s) outlets [] (.finished outlets) := .finish he
  exact .ended hrun

theorem finish_call {stack : List Spot} {s resume : Spot} {outlets : List String}
    {told : List (Step × Nat)} (he : l.encounter compiler s = .ok .finish)
    (h : Unwinds compiler l stack (.arrives resume) outlets told) :
    Unwinds compiler l (resume :: stack) (.arrives s) outlets told := by
  have hrun : Runs compiler l (stack.length + 1) (.arrives s) outlets [] (.finished outlets) :=
    .finish he
  exact .returns hrun h

end Unwinds

theorem tells_iff_unwinds {root : Uuid} {outlets : List String} {told : List (Step × Nat)} :
    Tells compiler l root outlets told ↔
      Unwinds compiler l [] (.arrives (l.entrance root)) outlets told := by
  constructor
  · intro h
    cases h with
    | waiting hrun => exact .waiting hrun
    | ended hrun => exact .ended hrun
  · intro h
    cases h with
    | waiting hrun => exact .waiting hrun
    | ended hrun => exact .ended hrun

/-- The answers before the first error. -/
def answered (answers : List (Except ChainError Step × Nat)) : List (Step × Nat) :=
  answers.filterMap fun answer => answer.1.toOption.map fun step => (step, answer.2)

@[simp] theorem answered_nil : answered [] = [] := rfl

@[simp] theorem answered_ok (step : Step) (depth : Nat)
    (rest : List (Except ChainError Step × Nat)) :
    answered ((.ok step, depth) :: rest) = (step, depth) :: answered rest := rfl

@[simp] theorem answered_error (e : ChainError) (depth : Nat)
    (rest : List (Except ChainError Step × Nat)) :
    answered ((.error e, depth) :: rest) = answered rest := rfl

namespace Walker

variable (compiler l) in
/-- What a walker has still to tell that stands on a story, or at the end. -/
def Rests (w : Walker) (outlets : List String) (told : List (Step × Nat)) : Prop :=
  if w.ended then told = outlets.map fun _ => (.ended, w.stack.length)
  else Unwinds compiler l w.stack (.stands w.current) outlets told

theorem rests_nil (w : Walker) : w.Rests compiler l [] [] := by
  unfold Rests
  split
  · rfl
  · exact .waiting .waits

/-- What a walker answers that goes to a spot is told by a run from there. -/
theorem unwinds_of_goTo {hops : Nat} {s : Spot} {w w' : Walker} {step : Step}
    {outlets : List String} {told : List (Step × Nat)}
    (h : w.goTo compiler l hops s = (.ok step, w')) (hon : w.ended = false)
    (hrest : w'.Rests compiler l outlets told) :
    Unwinds compiler l w.stack (.arrives s) outlets ((step, w'.stack.length) :: told) := by
  -- each move of the walker puts one rule in front of the run that is told from the next spot
  induction hops generalizing s w with
  | zero => simp [goTo] at h
  | succ hops ih =>
    unfold goTo at h
    rcases he : l.encounter compiler s with e | (script | ⟨called, _ | resume⟩ | _) <;>
      rw [he] at h <;> dsimp only at h
    case error => simp at h
    case ok.story =>
      obtain ⟨hstep, rfl⟩ := Prod.mk.inj h
      obtain rfl := Except.ok.inj hstep
      rw [Rests, if_neg (by simp [hon])] at hrest
      exact hrest.after [(.story script, w.stack.length)] fun hrun => .story he hrun
    case ok.call.none => exact (ih h hon).after [] fun hrun => .tail he hrun
    case ok.call.some =>
      split at h
      · exact (ih h hon).call he
      · simp at h
    case ok.finish =>
      cases hstack : w.stack with
      | nil =>
        rw [hstack] at h
        obtain ⟨hstep, rfl⟩ := Prod.mk.inj h
        obtain rfl := Except.ok.inj hstep
        rw [Rests, if_pos rfl] at hrest
        rw [hrest]
        exact .finish_root he outlets
      | cons resume rest =>
        rw [hstack] at h
        exact (ih h hon).finish_call he

theorem rests_of_leaveBy {w w' : Walker} {outlet : String} {step : Step} {outlets : List String}
    {told : List (Step × Nat)} (h : w.leaveBy compiler l outlet = (.ok step, w'))
    (hrest : w'.Rests compiler l outlets told) :
    w.Rests compiler l (outlet :: outlets) ((step, w'.stack.length) :: told) := by
  unfold leaveBy at h
  cases hended : w.ended with
  | true =>
    rw [hended, if_pos rfl] at h
    obtain ⟨hstep, rfl⟩ := Prod.mk.inj h
    obtain rfl := Except.ok.inj hstep
    rw [Rests, if_pos hended] at hrest ⊢
    rw [hrest, List.map_cons]
  | false =>
    rw [hended, if_neg Bool.false_ne_true] at h
    rw [Rests, if_neg (by simp [hended])]
    cases honward : l.onward? w.current outlet with
    | some next =>
      rw [honward] at h
      exact (unwinds_of_goTo h hended hrest).after [] fun hrun => .leaves honward hrun
    | none =>
      rw [honward] at h
      obtain ⟨hstep, rfl⟩ := Prod.mk.inj h
      obtain rfl := Except.ok.inj hstep
      rw [Rests, if_neg (by simp [hended])] at hrest
      exact hrest.after [(.stay, w.stack.length)] fun hrun => .stays honward hrun

theorem rests_of_travel {outlets : List String} {w : Walker} {step : Step} {n : Nat}
    (hn : (answered (travel (leaveBy compiler l) (fun w => w.stack.length) outlets
      (.ok step, w))).length = n + 1) :
    ∃ told, w.Rests compiler l (outlets.take n) told ∧
      answered (travel (leaveBy compiler l) (fun w => w.stack.length) outlets (.ok step, w)) =
        (step, w.stack.length) :: told := by
  induction outlets generalizing w step n with
  | nil =>
    rw [List.take_nil]
    exact ⟨[], w.rests_nil, rfl⟩
  | cons outlet rest ih =>
    rw [travel, answered_ok, List.length_cons, Nat.add_right_cancel_iff] at hn
    rw [travel, answered_ok]
    rcases hleave : w.leaveBy compiler l outlet with ⟨e | next, w'⟩
    · rw [hleave, travel_error] at hn
      rw [travel_error]
      obtain rfl : n = 0 := hn.symm
      exact ⟨[], w.rests_nil, rfl⟩
    · rw [hleave] at hn
      obtain ⟨m, rfl⟩ : ∃ m, n = m + 1 := by
        obtain ⟨more, hmore⟩ := travel_ok rest next w'
        rw [hmore, answered_ok] at hn
        exact ⟨_, hn.symm⟩
      obtain ⟨told, hrests, htold⟩ := ih hn
      rw [htold, List.take_succ_cons]
      exact ⟨_, rests_of_leaveBy hleave hrests, rfl⟩

/-- A walker that sets out tells what the root graph tells. -/
theorem tells_of_tour {root : Uuid} {outlets : List String} {n : Nat}
    (hn : (answered (tour compiler l root outlets)).length = n + 1) :
    Tells compiler l root (outlets.take n) (answered (tour compiler l root outlets)) := by
  rw [tells_iff_unwinds]
  unfold tour at hn ⊢
  rcases hset : setOut compiler l root with ⟨e | step, w⟩
  · rw [hset, travel_error] at hn
    simp at hn
  · rw [hset] at hn
    obtain ⟨told, hrests, htold⟩ := rests_of_travel hn
    rw [htold]
    exact unwinds_of_goTo hset rfl hrests

end Walker

end

namespace Chain

/-- Until an error stops it, a tour of a chain answers what its root graph tells. -/
theorem tells_iff_answered (compiler : Compiler) (l : Library) (hl : l.Keyed) (root : Uuid)
    {c : Chain} (h : build compiler l root = .ok c) (outlets : List String) {n : Nat}
    (hn : (answered (c.tour outlets)).length = n + 1) (told : List (Step × Nat)) :
    Tells compiler l root (outlets.take n) told ↔ told = answered (c.tour outlets) := by
  obtain ⟨all, hp⟩ := progress_of_build h
  have htour : c.tour outlets = Walker.tour compiler l root outlets :=
    travel_eq hl hp outlets (agree_setOut hl hp rfl (root_of_build h))
  rw [htour] at hn ⊢
  have htells := Walker.tells_of_tour hn
  constructor
  · intro htold
    exact htold.unique htells
  · rintro rfl
    exact htells

/-- A call between two stories. The graph that it names ends in a call without an outlet. -/
def errand : Library := ⟨[
  (.ofNat 1, { Graph.bare (.ofNat 1) (.ofNat 2) (.ofNat 3) "outer" with
    stories := [
      .ofKind (.ofNat 4) (.story ⟨⟨"a", ": out"⟩, []⟩),
      .ofKind (.ofNat 5) (.story ⟨⟨"b", ": back"⟩, []⟩)]
    subgraphs := [.ofKind (.ofNat 6) (.subgraph (.ofNat 7))]
    connections := [
      ⟨.ofNat 2, defaultOutlet, .ofNat 4, defaultOutlet⟩,
      ⟨.ofNat 4, defaultOutlet, .ofNat 6, defaultOutlet⟩,
      ⟨.ofNat 6, defaultOutlet, .ofNat 5, defaultOutlet⟩,
      ⟨.ofNat 5, defaultOutlet, .ofNat 3, defaultOutlet⟩] }),
  (.ofNat 7, { Graph.bare (.ofNat 7) (.ofNat 8) (.ofNat 9) "inner" with
    stories := [.ofKind (.ofNat 10) (.story ⟨⟨"c", ": there"⟩, []⟩)]
    subgraphs := [.ofKind (.ofNat 11) (.subgraph (.ofNat 12))]
    connections := [
      ⟨.ofNat 8, defaultOutlet, .ofNat 10, defaultOutlet⟩,
      ⟨.ofNat 10, defaultOutlet, .ofNat 11, defaultOutlet⟩] }),
  (.ofNat 12, { Graph.bare (.ofNat 12) (.ofNat 13) (.ofNat 14) "last" with
    stories := [.ofKind (.ofNat 15) (.story ⟨⟨"d", ": further"⟩, []⟩)]
    connections := [
      ⟨.ofNat 13, defaultOutlet, .ofNat 15, defaultOutlet⟩,
      ⟨.ofNat 15, defaultOutlet, .ofNat 14, defaultOutlet⟩] })]⟩

theorem keyed_errand : errand.Keyed := by
  intro entry hentry
  simp only [errand, List.mem_cons, List.not_mem_nil, or_false] at hentry
  rcases hentry with rfl | rfl | rfl <;> rfl

/-- The finish of the last graph returns to the story after the first call. -/
theorem tells_errand :
    let outlets := [defaultOutlet, defaultOutlet, "aside", defaultOutlet, defaultOutlet, "aside"]
    let answers := [
      (.story ⟨"a", [.say ⟨"", "", "out"⟩], [], [], []⟩, 0),
      (.story ⟨"c", [.say ⟨"", "", "there"⟩], [], [], []⟩, 1),
      (.story ⟨"d", [.say ⟨"", "", "further"⟩], [], [], []⟩, 1), (.stay, 1),
      (.story ⟨"b", [.say ⟨"", "", "back"⟩], [], [], []⟩, 0), (.ended, 0), (.ended, 0)]
    errand.Keyed ∧ ∃ c, build .standard errand (.ofNat 1) = .ok c ∧
      answered (c.tour outlets) = answers ∧
      ∀ told, Tells .standard errand (.ofNat 1) outlets told ↔ told = answers := by
  intro outlets answers
  have htour : (build .standard errand (.ofNat 1)).map (fun c => answered (c.tour outlets)) =
      .ok answers := by rfl
  cases hbuild : build .standard errand (.ofNat 1) with
  | error e => simp [hbuild, Except.map] at htour
  | ok c =>
    rw [hbuild] at htour
    have htour : answered (c.tour outlets) = answers := Except.ok.inj htour
    have hlength : (answered (c.tour outlets)).length = 6 + 1 := by rw [htour]; rfl
    refine ⟨keyed_errand, c, rfl, htour, fun told => ?_⟩
    rw [← htour]
    exact tells_iff_answered .standard errand keyed_errand (.ofNat 1) hbuild outlets hlength told

end Chain

end Fabula
