import Mathlib.Data.List.Forall2
import Fabula.Chain.Walk
import Fabula.Proofs.Chain.Built

/-!
# Walking the graphs themselves

A walker stands on a node of a graph of the library and keeps the nodes to which it will return. It
looks up where to go among the connections, and it compiles a story when it arrives there. A chain
that was built from the library answers every walk as the walker does.
-/

namespace Fabula

open Chain (Step maxCallDepth maxTransferHops)
open Script (Compiler)

/-- A graph and a node of it. A graph without an entry has no node to stand on. -/
structure Spot where
  graph : Uuid
  node : Option Uuid
deriving DecidableEq

/-- What is met at a spot. -/
inductive Encounter where
  | story (script : Script)
  | call (graph : Uuid) (resume : Option Spot)
  | finish

namespace Library

/-- Where a graph is entered. -/
def entrance (l : Library) (key : Uuid) : Spot := ⟨key, (l.get? key).bind Graph.entry?⟩

/-- Where an outlet leads. -/
def onward? (l : Library) (s : Spot) (outlet : String) : Option Spot :=
  (l.get? s.graph).bind fun g =>
    (s.node.bind fun id => g.next? id outlet).map fun next => ⟨s.graph, some next⟩

/-- A graph that has no entry counts as its finish. -/
def encounter (l : Library) (compiler : Compiler) (s : Spot) : Except ChainError Encounter :=
  match l.get? s.graph with
  | none => .error (.missingGraph s.graph)
  | some g =>
    match (s.node.bind g.node?).map Node.kind with
    | some (.story story) =>
      match compiler.compile story.source.name story.source.text with
      | .ok script => .ok (.story script)
      | .error e => .error (.compile (s.node.getD s.graph) e)
    | some (.subgraph called) => .ok (.call called (l.onward? s defaultOutlet))
    | _ => .ok .finish

end Library

/-- Where a walker stands, and where it will return to, the nearest first. -/
structure Walker where
  stack : List Spot
  current : Spot
  ended : Bool
deriving DecidableEq

namespace Walker

section
variable (compiler : Compiler) (l : Library)

/-- Goes to a spot and on to the next story or the end, in at most `hops` moves. -/
def goTo : Nat → Spot → Walker → Except ChainError Step × Walker
  | 0, _, w => (.error (.noProgress maxTransferHops), w)
  | hops + 1, s, w =>
    match l.encounter compiler s with
    | .error e => (.error e, { w with current := s })
    | .ok (.story script) => (.ok (.story script), { w with current := s })
    | .ok (.call called none) => goTo hops (l.entrance called) { w with current := s }
    | .ok (.call called (some resume)) =>
      if w.stack.length < maxCallDepth then
        goTo hops (l.entrance called) { w with current := s, stack := resume :: w.stack }
      else (.error (.callDepthExceeded maxCallDepth), { w with current := s })
    | .ok .finish =>
      match w.stack with
      | [] => (.ok .ended, { w with current := s, ended := true })
      | resume :: rest => goTo hops resume { w with current := s, stack := rest }

/-- Starts at the entrance of the root graph. -/
def setOut (root : Uuid) : Except ChainError Step × Walker :=
  goTo compiler l maxTransferHops (l.entrance root) ⟨[], l.entrance root, false⟩

/-- Leaves the story on which the walker stands. -/
def leaveBy (w : Walker) (outlet : String) : Except ChainError Step × Walker :=
  if w.ended then (.ok .ended, w)
  else match l.onward? w.current outlet with
    | some s => goTo compiler l maxTransferHops s w
    | none => (.ok .stay, w)

end

end Walker

/-- What a walk along some outlets answers, up to its first error, and how many returns are pending
after each answer. -/
def travel {α : Type} (leave : α → String → Except ChainError Step × α) (pending : α → Nat) :
    List String → Except ChainError Step × α → List (Except ChainError Step × Nat)
  | _, (.error e, a) => [(.error e, pending a)]
  | [], (.ok step, a) => [(.ok step, pending a)]
  | outlet :: rest, (.ok step, a) =>
    (.ok step, pending a) :: travel leave pending rest (leave a outlet)

theorem travel_error {α : Type} {leave : α → String → Except ChainError Step × α}
    {pending : α → Nat} (outlets : List String) (e : ChainError) (a : α) :
    travel leave pending outlets (.error e, a) = [(.error e, pending a)] := by
  cases outlets <;> rfl

theorem travel_ok {α : Type} {leave : α → String → Except ChainError Step × α}
    {pending : α → Nat} (outlets : List String) (step : Step) (a : α) :
    ∃ rest, travel leave pending outlets (.ok step, a) = (.ok step, pending a) :: rest := by
  cases outlets <;> exact ⟨_, rfl⟩

/-- The chain goes back to its beginning and leaves by the outlets. -/
def Chain.tour (c : Chain) (outlets : List String) : List (Except ChainError Step × Nat) :=
  travel Chain.leaveBy (fun c => c.stack.length) outlets c.reset

def Walker.tour (compiler : Compiler) (l : Library) (root : Uuid) (outlets : List String) :
    List (Except ChainError Step × Nat) :=
  travel (Walker.leaveBy compiler l) (fun w => w.stack.length) outlets
    (Walker.setOut compiler l root)

namespace Chain

/-- A place in the chain and a spot in the library are the same. -/
def Same (l : Library) (graphs : List (Uuid × List ChainNode)) (t : Target) (s : Spot) : Prop :=
  t.graph = s.graph ∧ ∃ g nodes, l.get? t.graph = some g ∧ graphs.lookup t.graph = some nodes ∧
    (ids nodes)[t.index]? = s.node

/-- The chain meets what the walker meets. -/
inductive Alike (l : Library) (graphs : List (Uuid × List ChainNode)) : Arrival → Encounter → Prop
  | story (script : Script) : Alike l graphs (.story script) (.story script)
  | call {called : Uuid} {t : Option Target} {s : Option Spot} :
      Same l graphs ⟨called, 0⟩ (l.entrance called) → Option.Rel (Same l graphs) t s →
      Alike l graphs (.call called t) (.call called s)
  | finish : Alike l graphs .finish .finish

section
variable {compiler : Compiler} {l : Library} {root : Uuid} {all : List Uuid}
  {graphs : List (Uuid × List ChainNode)}

theorem same_entrance (hp : Progress compiler l root [] all graphs) {key : Uuid}
    (hkey : key ∈ all) : Same l graphs ⟨key, 0⟩ (l.entrance key) := by
  obtain ⟨g, nodes, hg, hmem, hflat⟩ := hp.flat_of_mem hkey
  refine ⟨rfl, g, nodes, hg, lookup_of_mem hp.nodup_built hmem, ?_⟩
  rw [← List.head?_eq_getElem?, hflat.first, Library.entrance, hg, Option.bind_some]

/-- An outlet of a node leads to the same place in the chain and in its graph. -/
theorem same_onward {t : Target} {s : Spot} {g : Graph} {nodes : List ChainNode} {n : ChainNode}
    (hgraph : t.graph = s.graph) (hg : l.get? t.graph = some g) (hid : g.id = t.graph)
    (hnodes : graphs.lookup t.graph = some nodes) (hn : s.node = some n.node)
    (hlinked : Linked g (ids nodes) n) (hopen : n.kind ≠ .finish) (outlet : String) :
    Option.Rel (Same l graphs) (n.branch? outlet) (l.onward? s outlet) := by
  have hrel := hlinked.branch hopen outlet
  rw [Library.onward?, ← hgraph, hg, Option.bind_some, hn, Option.bind_some]
  generalize n.branch? outlet = target at hrel
  generalize g.next? n.node outlet = next at hrel
  cases hrel with
  | none => exact .none
  | some hstands =>
    obtain ⟨hkey, hplace⟩ := hstands
    rw [hid] at hkey
    exact .some ⟨hkey, g, nodes, by rw [hkey, hg], by rw [hkey, hnodes], hplace⟩

theorem alike_arrival (hl : l.Keyed) (hp : Progress compiler l root [] all graphs) {t : Target}
    {s : Spot} (hsame : Same l graphs t s) {c : Chain} (hc : c.graphs = graphs) :
    ∃ a e, c.arrival t = .ok a ∧ l.encounter compiler s = .ok e ∧ Alike l graphs a e := by
  obtain ⟨hgraph, g, nodes, hg, hnodes, hid⟩ := hsame
  obtain ⟨g', hg', hholds⟩ := hp.holds hnodes
  obtain rfl := Option.some.inj (hg.symm.trans hg')
  have hat : c.nodeAt t = .ok nodes[t.index]? := by simp [nodeAt, nodes?, hc, hnodes]
  rw [arrival, hat, Library.encounter, ← hgraph, hg]
  rw [ids, List.getElem?_map] at hid
  cases hn : nodes[t.index]? with
  | none =>
    rw [hn, Option.map_none] at hid
    exact ⟨.finish, .finish, rfl, by simp [← hid], .finish⟩
  | some n =>
    rw [hn, Option.map_some] at hid
    have hmem := List.mem_of_getElem? hn
    obtain ⟨d, hnode, hkind⟩ := hholds.made n hmem
    have honward := same_onward hgraph hg (hl.id_eq hg) hnodes hid.symm (hholds.linked n hmem)
    simp only [← hid, Option.bind_some, hnode, Option.map_some]
    cases hd : d.kind with
    | start => simp [kindOf, hd] at hkind
    | finish =>
      have hn : n.kind = .finish := by simpa [kindOf, hd, eq_comm] using hkind
      exact ⟨.finish, .finish, by rw [hn], rfl, .finish⟩
    | subgraph called =>
      have hn : n.kind = .subgraph called := by simpa [kindOf, hd, eq_comm] using hkind
      have hcalled : called ∈ all := hp.closed _ (mem_of_lookup hnodes) called
        (mem_references.mpr ⟨n, hmem, hn⟩)
      refine ⟨.call called (n.branch? defaultOutlet), _, by rw [hn], rfl, ?_⟩
      exact .call (same_entrance hp hcalled) (honward (by simp [hn]) defaultOutlet)
    | story story =>
      cases hcompile : compiler.compile story.source.name story.source.text with
      | error e => simp [kindOf, hd, hcompile] at hkind
      | ok script =>
        have hn : n.kind = .story story.source script story.characters := by
          simpa [kindOf, hd, hcompile, eq_comm] using hkind
        exact ⟨.story script, .story script, by rw [hn], by simp only [hcompile], .story script⟩

/-- A chain and a walker that both stand on a story, or have both come to the end. -/
structure Lockstep (l : Library) (graphs : List (Uuid × List ChainNode)) (c : Chain)
    (w : Walker) : Prop where
  built : c.graphs = graphs
  stack : List.Forall₂ (Same l graphs) c.stack w.stack
  ended : c.ended = w.ended
  story : c.ended = false → Same l graphs c.current w.current ∧
    ∃ script, c.arrival c.current = .ok (.story script)

/-- A chain and a walker answer the same. Unless that is an error they are in step. -/
structure Agree (l : Library) (graphs : List (Uuid × List ChainNode))
    (x : Except ChainError Step × Chain) (y : Except ChainError Step × Walker) : Prop where
  answer : x.1 = y.1
  stack : List.Forall₂ (Same l graphs) x.2.stack y.2.stack
  lockstep : ∀ step, x.1 = .ok step → Lockstep l graphs x.2 y.2

theorem agree_of_error {e : ChainError} {c : Chain} {w : Walker}
    (hstack : List.Forall₂ (Same l graphs) c.stack w.stack) :
    Agree l graphs (.error e, c) (.error e, w) where
  answer := rfl
  stack := hstack
  lockstep := by
    intro step h
    simp at h

theorem agree_goTo (hl : l.Keyed) (hp : Progress compiler l root [] all graphs) {hops : Nat}
    {c : Chain} {w : Walker} {t : Target} {s : Spot} (hc : c.graphs = graphs)
    (hstack : List.Forall₂ (Same l graphs) c.stack w.stack) (hcended : c.ended = false)
    (hwended : w.ended = false) (hsame : Same l graphs t s) :
    Agree l graphs (c.enter hops t) (w.goTo compiler l hops s) := by
  induction hops generalizing c w t s with
  | zero => exact agree_of_error hstack
  | succ hops ih =>
    -- both meet the same at the new place, and so they take the same move
    obtain ⟨a, e, ha, he, halike⟩ := alike_arrival hl hp hsame (c := { c with current := t }) hc
    simp only [enter, ha, Walker.goTo, he]
    cases halike with
    | story script =>
      refine ⟨rfl, hstack, fun _ _ => ⟨hc, hstack, ?_, fun _ => ⟨hsame, script, ha⟩⟩⟩
      exact hcended.trans hwended.symm
    | call hentrance hresume =>
      cases hresume with
      | none => exact ih hc hstack hcended hwended hentrance
      | some hresume =>
        have hlength := hstack.length_eq
        by_cases hdeep : w.stack.length < maxCallDepth
        · simp only [pushReturn, if_pos hdeep]
          rw [if_neg (by omega)]
          exact ih hc (.cons hresume hstack) hcended hwended hentrance
        · simp only [pushReturn, if_neg hdeep]
          rw [if_pos (by omega)]
          exact agree_of_error hstack
    | finish =>
      generalize hcs : c.stack = cs at hstack
      generalize hws : w.stack = ws at hstack
      cases hstack with
      | nil => exact ⟨rfl, .nil, fun _ _ => ⟨hc, .nil, rfl, fun hend => by simp at hend⟩⟩
      | cons hresume hrest => exact ih hc hrest hcended hwended hresume

theorem agree_setOut (hl : l.Keyed) (hp : Progress compiler l root [] all graphs) {c : Chain}
    (hc : c.graphs = graphs) (hroot : c.root = root) :
    Agree l graphs c.reset (Walker.setOut compiler l root) := by
  subst hroot
  exact agree_goTo hl hp hc .nil rfl rfl (same_entrance hp hp.root_seen)

/-- Only a story node is met as a story. -/
theorem story_of_arrival {c : Chain} {t : Target} {met : Option ChainNode} {script : Script}
    (hat : c.nodeAt t = .ok met) (h : c.arrival t = .ok (.story script)) :
    ∃ n, met = some n ∧ ∃ source names, n.kind = .story source script names := by
  rw [arrival, hat] at h
  cases met with
  | none => simp at h
  | some n =>
    refine ⟨n, rfl, ?_⟩
    cases hkind : n.kind with
    | story source other names =>
      simp only [hkind, Except.ok.injEq, Arrival.story.injEq] at h
      exact ⟨source, names, by rw [h]⟩
    | subgraph called => simp [hkind] at h
    | finish => simp [hkind] at h

theorem agree_leaveBy (hl : l.Keyed) (hp : Progress compiler l root [] all graphs) {c : Chain}
    {w : Walker} (h : Lockstep l graphs c w) (outlet : String) :
    Agree l graphs (c.leaveBy outlet) (w.leaveBy compiler l outlet) := by
  unfold leaveBy Walker.leaveBy
  rw [← h.ended]
  cases hend : c.ended with
  | true => exact ⟨rfl, h.stack, fun _ _ => h⟩
  | false =>
    obtain ⟨⟨hgraph, g, nodes, hg, hnodes, hid⟩, script, hstory⟩ := h.story hend
    have hat : c.nodeAt c.current = .ok nodes[c.current.index]? := by
      simp [nodeAt, nodes?, h.built, hnodes]
    obtain ⟨n, hn, source, names, hkind⟩ := story_of_arrival hat hstory
    have hmem := List.mem_of_getElem? hn
    obtain ⟨g', hg', hholds⟩ := hp.holds hnodes
    obtain rfl := Option.some.inj (hg.symm.trans hg')
    have hid : w.current.node = some n.node := by
      rw [← hid, ids, List.getElem?_map, hn, Option.map_some]
    have honward := same_onward hgraph hg (hl.id_eq hg) hnodes hid (hholds.linked n hmem)
      (by simp [hkind]) outlet
    rw [hat, hn]
    dsimp only
    generalize n.branch? outlet = target at honward
    generalize l.onward? w.current outlet = next at honward
    cases honward with
    | none =>
      rw [hkind]
      exact ⟨rfl, h.stack, fun _ _ => h⟩
    | some hsame => exact agree_goTo hl hp h.built h.stack hend (h.ended.symm.trans hend) hsame

theorem travel_eq (hl : l.Keyed) (hp : Progress compiler l root [] all graphs)
    (outlets : List String) {x : Except ChainError Step × Chain}
    {y : Except ChainError Step × Walker} (h : Agree l graphs x y) :
    travel Chain.leaveBy (fun c => c.stack.length) outlets x =
      travel (Walker.leaveBy compiler l) (fun w => w.stack.length) outlets y := by
  induction outlets generalizing x y with
  | nil =>
    obtain ⟨r, c⟩ := x
    obtain ⟨r', w⟩ := y
    obtain rfl : r = r' := h.answer
    have hlength : c.stack.length = w.stack.length := h.stack.length_eq
    cases r <;> simp only [travel, hlength]
  | cons outlet rest ih =>
    obtain ⟨r, c⟩ := x
    obtain ⟨r', w⟩ := y
    obtain rfl : r = r' := h.answer
    have hlength : c.stack.length = w.stack.length := h.stack.length_eq
    cases r with
    | error e => simp only [travel, hlength]
    | ok step =>
      simp only [travel, hlength]
      rw [ih (agree_leaveBy hl hp (h.lockstep step rfl) outlet)]

end

/-- A chain answers every tour as a walker through the library does. -/
theorem tour_eq_walker_tour (compiler : Compiler) (l : Library) (hl : l.Keyed) (root : Uuid)
    {c : Chain} (h : build compiler l root = .ok c) (outlets : List String) :
    c.tour outlets = Walker.tour compiler l root outlets := by
  obtain ⟨all, hp⟩ := progress_of_build h
  exact travel_eq hl hp outlets (agree_setOut hl hp rfl (root_of_build h))

/-- The call of the empty graph returns at once to the story, which has no other outlet. -/
theorem tour_roundabout : roundabout.Keyed ∧
    build .standard roundabout (.ofNat 1) = .ok roundaboutChain ∧
    roundaboutChain.tour [defaultOutlet, "aside"] = [
      (.ok (.story ⟨"a", [.say ⟨"", "", "ping"⟩], [], [], []⟩), 0),
      (.ok (.story ⟨"a", [.say ⟨"", "", "ping"⟩], [], [], []⟩), 0), (.ok .stay, 0)] := by
  refine ⟨keyed_roundabout, build_roundabout, ?_⟩
  rw [tour_eq_walker_tour .standard roundabout keyed_roundabout (.ofNat 1) build_roundabout]
  rfl

end Chain

end Fabula
