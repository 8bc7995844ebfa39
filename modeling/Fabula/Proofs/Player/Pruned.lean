import Fabula.Proofs.Chain.Pruned
import Fabula.Proofs.Script.Written
import Fabula.Proofs.Player.Tandem
import Fabula.Proofs.Player.Tour

/-!
# Playing pruned graphs

A story is left by the default outlet and by the labels of its script, and pruning keeps what leaves
by those. So the chain of a library and the chain of the pruned library, which may have fewer nodes
in other places, follow one walker, and a player is led by both alike.
-/

namespace Fabula

open Script (Compiler)

namespace Chain

/-- A chain in step with a walker stands on the walker's story. -/
theorem Lockstep.onStory {compiler : Compiler} {l : Library} {root : Uuid} {all : List Uuid}
    {graphs : List (Uuid × List ChainNode)} {d : Chain} {w : Walker}
    (hp : Progress compiler l root [] all graphs) (h : Lockstep l graphs d w)
    (hopen : d.ended = false) :
    ∃ story script, l.story? w.current = some story ∧
      compiler.compile story.source.name story.source.text = .ok script ∧
      d.OnStory script story.characters := by
  obtain ⟨⟨hgraph, g, nodes, hg, hnodes, hid⟩, script, harrival⟩ := h.story hopen
  have hat : d.nodeAt d.current = .ok nodes[d.current.index]? := by
    simp [nodeAt, nodes?, h.built, hnodes]
  obtain ⟨⟨id, kind, branches⟩, hn, source, names, rfl⟩ := story_of_arrival hat harrival
  obtain ⟨g', hg', hholds⟩ := hp.holds hnodes
  obtain rfl := Option.some.inj (hg.symm.trans hg')
  obtain ⟨n, hnode, hkind⟩ := hholds.made _ (List.mem_of_getElem? hn)
  have hspot : w.current.node = some id := by
    rw [← hid, ids, List.getElem?_map, hn, Option.map_some]
  obtain ⟨hkind, hcompile⟩ := kindOf_eq_story_iff.mp hkind
  refine ⟨⟨source, names⟩, script, ?_, hcompile, hopen, id, source, branches, ?_⟩
  · rw [Library.story?, ← hgraph, hg, Option.bind_some, hspot, Option.bind_some, hnode,
      Option.bind_some, hkind]
  · rw [currentNode?_of_nodeAt hat, hn]

/-- The chain of a library and that of the pruned library. -/
structure Counterparts (l : Library) (root : Uuid) (c c' : Chain) : Prop where
  keyed : l.Keyed
  started : l.Started
  built : build .standard l root = .ok c
  pruned : build .standard (l.pruned .standard) root = .ok c'

/-- Both chains are in step with one walker, on a story with this script. -/
def Together (l : Library) (c c' : Chain) (script : Script) (d d' : Chain) : Prop :=
  ∃ w, Lockstep l c.graphs d w ∧ Lockstep (l.pruned .standard) c'.graphs d' w ∧
    d.ended = false ∧ d.currentScript? = some script

section
variable {l : Library} {root : Uuid} {c c' d d' : Chain} {script : Script}

theorem together_of_agree {x x' : Except ChainError Step × Chain}
    {y : Except ChainError Step × Walker} (hx : Agree l c.graphs x y)
    (hx' : Agree (l.pruned .standard) c'.graphs x' y) (hstory : x.1 = .ok (.story script))
    (hopen : x.2.ended = false) (harrival : x.2.arrival x.2.current = .ok (.story script)) :
    Together l c c' script x.2 x'.2 := by
  have hstory' : x'.1 = .ok (.story script) := by rw [hx'.answer, ← hx.answer, hstory]
  obtain ⟨names, hon⟩ := onStory_of_arrival hopen harrival
  exact ⟨y.2, hx.lockstep _ hstory, hx'.lockstep _ hstory', hopen, hon.currentScript?⟩

namespace Counterparts
variable (hc : Counterparts l root c c')
include hc

/-- The story on which both chains stand. -/
theorem story (h : Together l c c' script d d') : ∃ w story,
    Lockstep l c.graphs d w ∧ Lockstep (l.pruned .standard) c'.graphs d' w ∧
    l.story? w.current = some story ∧
    Compiler.standard.compile story.source.name story.source.text = .ok script ∧
    d.OnStory script story.characters ∧ d'.OnStory script story.characters := by
  obtain ⟨w, hd, hd', hopen, hscript⟩ := h
  obtain ⟨all, hp⟩ := progress_of_build hc.built
  obtain ⟨all', hp'⟩ := progress_of_build hc.pruned
  have hopen' : d'.ended = false := by rw [hd'.ended, ← hd.ended, hopen]
  obtain ⟨story, own, hstory, hcompile, hon⟩ := hd.onStory hp hopen
  obtain ⟨other, own', hstory', hcompile', hon'⟩ := hd'.onStory hp' hopen'
  rw [Library.story?_pruned, hstory] at hstory'
  obtain rfl := Option.some.inj hstory'
  obtain rfl := Except.ok.inj (hcompile.symm.trans hcompile')
  obtain rfl := Option.some.inj (hon.currentScript?.symm.trans hscript)
  exact ⟨w, story, hd, hd', hstory, hcompile, hon, hon'⟩

/-- By an outlet of the story both chains go where one walker goes. -/
theorem exists_agree_leaveBy {outlet : String} (h : Together l c c' script d d')
    (houtlet : outlet ∈ defaultOutlet :: script.jumps) :
    ∃ y, Agree l c.graphs (d.leaveBy outlet) y ∧
      Agree (l.pruned .standard) c'.graphs (d'.leaveBy outlet) y := by
  obtain ⟨w, story, hd, hd', hstory, hcompile, _⟩ := hc.story h
  obtain ⟨all, hp⟩ := progress_of_build hc.built
  obtain ⟨all', hp'⟩ := progress_of_build hc.pruned
  have hmem : outlet ∈ Graph.outletsOf .standard (.story story) := by
    simpa [Graph.outletsOf, hcompile] using houtlet
  refine ⟨w.leaveBy .standard l outlet, agree_leaveBy hc.keyed hp hd outlet, ?_⟩
  rw [← Walker.leaveBy_pruned hc.started hstory hmem]
  exact agree_leaveBy (hc.keyed.pruned .standard) hp' hd' outlet

theorem exists_agree_reset (hd : Walked c d) (hd' : Walked c' d') :
    ∃ y, Agree l c.graphs d.reset y ∧ Agree (l.pruned .standard) c'.graphs d'.reset y := by
  obtain ⟨all, hp⟩ := progress_of_build hc.built
  obtain ⟨all', hp'⟩ := progress_of_build hc.pruned
  have hroot : d.root = root := hd.root.trans (root_of_build hc.built)
  have hroot' : d'.root = root := hd'.root.trans (root_of_build hc.pruned)
  refine ⟨Walker.setOut .standard l root, agree_setOut hc.keyed hp hd.graphs hroot, ?_⟩
  rw [← Walker.setOut_pruned hc.started]
  exact agree_setOut (hc.keyed.pruned .standard) hp' hd'.graphs hroot'

theorem met_leaveBy {outlet : String} (h : Together l c c' script d d')
    (houtlet : outlet ∈ defaultOutlet :: script.jumps) :
    Player.Met (Together l c c') script (Director.leave d outlet) (Director.leave d' outlet) := by
  obtain ⟨y, hx, hx'⟩ := hc.exists_agree_leaveBy h houtlet
  have hleave : ∀ e : Chain, Director.leave e outlet =
      ((e.leaveBy outlet).1.map Step.transfer, (e.leaveBy outlet).2) := fun _ => rfl
  rw [hleave, hleave]
  rcases hr : d.leaveBy outlet with ⟨r, e⟩
  rcases hr' : d'.leaveBy outlet with ⟨r', e'⟩
  rw [hr] at hx
  rw [hr'] at hx'
  obtain rfl : r = r' := hx.answer.trans hx'.answer.symm
  rcases r with error | (next | _ | _)
  · exact .error error e e'
  · obtain ⟨harrival, hopen⟩ := leaveBy_story hr
    exact .execute next (together_of_agree hx hx' rfl hopen harrival)
  · obtain rfl := leaveBy_stay hr
    obtain rfl := leaveBy_stay hr'
    exact .stay h
  · exact .finish e e'

theorem tandem : Player.Tandem (Together l c c') where
  plain := by
    intro script d d' h
    obtain ⟨_, _, _, _, _, hcompile, _⟩ := hc.story h
    exact (Compiler.grown_of_compile hcompile).no_command
  character := by
    intro script d d' h key
    obtain ⟨_, _, _, _, _, _, hon, hon'⟩ := hc.story h
    rw [hon.character?, hon'.character?]
  leave := by
    intro script d d' label h hjump
    apply hc.met_leaveBy h
    cases label with
    | none => exact List.mem_cons_self
    | some label =>
      obtain ⟨_, _, _, _, _, hcompile, _⟩ := hc.story h
      exact List.mem_cons_of_mem _ (Compiler.mem_jumps_of_compile hcompile hjump)
  finished := by
    intro script d d' h
    exact hc.met_leaveBy h List.mem_cons_self

end Counterparts

end

end Chain

namespace Player

open Chain (Counterparts Together)

/-- The host starts the player or nudges it, and makes no jump of its own. -/
def HostCall.OnTour (a : HostCall) : Prop := a = .start ∨ ∃ n : Nudge, a = n.call

/-- The ends of calls, each of which grants turns of its own. -/
def askAll : Player Chain → List (Nat × HostCall) → List (Outcome Chain)
  | _, [] => []
  | p, (turns, a) :: calls => p.ask turns a :: askAll (p.ask turns a).player calls

section
variable {l : Library} {root : Uuid} {c c' : Chain} {store : Store} {p q : Player Chain}

/-- Outcomes under directors in tandem are the same but for the directors. -/
theorem Outcome.Agrees.under_eq {T : Script → Chain → Chain → Prop} {o o' : Outcome Chain}
    (h : Outcome.Agrees (Along T) o o') (d : Chain) : o'.under d = o.under d := by
  have hplayer : o'.player.under d = o.player.under d := by
    rw [h.player.under]
    rfl
  cases h with
  | done => exact congrArg Outcome.done hplayer
  | failed e => exact congrArg (Outcome.failed e) hplayer
  | unfinished => exact congrArg Outcome.unfinished hplayer

variable (hc : Counterparts l root c c')
include hc

theorem agrees_start (hp : Fit c store p) (hq : Fit c' store q)
    (h : Along (Together l c c') p q) (turns : Nat) :
    Outcome.Agrees (Along (Together l c c')) (p.start turns) (q.start turns) := by
  obtain ⟨y, hx, hx'⟩ := hc.exists_agree_reset hp.walked hq.walked
  have hbegun : q.begin false = (p.begin false).under q.director := congrArg (begin · false) h.under
  unfold start
  rw [hbegun]
  have hdirector : (p.begin false).director = p.director := rfl
  have hdirector' : ((p.begin false).under q.director).director = q.director := rfl
  simp only [hdirector, hdirector']
  rcases hr : p.director.reset with ⟨r, d⟩
  rcases hr' : q.director.reset with ⟨r', d'⟩
  rw [hr] at hx
  rw [hr'] at hx'
  obtain rfl : r = r' := hx.answer.trans hx'.answer.symm
  rcases r with e | (script | _ | _)
  · exact .failed _ (.rests d' nofun nofun)
  · obtain ⟨harrival, hopen⟩ := Chain.enter_story hr
    refine hc.tandem.run turns (.plays rfl ?_)
    exact Chain.together_of_agree hx hx' rfl hopen harrival
  · exact .done (along_finish _ d')
  · exact .done (along_finish _ d')

theorem agrees_ask (hp : Fit c store p) (hq : Fit c' store q)
    (h : Along (Together l c c') p q) (turns : Nat) {a : HostCall} (ha : a.OnTour) :
    Outcome.Agrees (Along (Together l c c')) (p.ask turns a) (q.ask turns a) := by
  rcases ha with rfl | ⟨n, rfl⟩
  · exact agrees_start hc hp hq h turns
  · rw [ask_call, ask_call]
    exact hc.tandem.nudge turns n h

theorem askAll_under (hp : Fit c store p) (hq : Fit c' store q)
    (h : Along (Together l c c') p q) (d : Chain) {calls : List (Nat × HostCall)}
    (hcalls : ∀ call ∈ calls, call.2.OnTour) :
    (askAll q calls).map (Outcome.under d) = (askAll p calls).map (Outcome.under d) := by
  induction calls generalizing p q with
  | nil => rfl
  | cons call calls ih =>
    obtain ⟨turns, a⟩ := call
    obtain ⟨hnow, hlater⟩ := List.forall_mem_cons.mp hcalls
    have hagrees := agrees_ask hc hp hq h turns hnow
    have hgrown : ∀ script ∈ c.scripts, Script.Grown script.sentences := fun script hscript =>
      Chain.grown_of_mem_scripts hc.built hscript
    have hgrown' : ∀ script ∈ c'.scripts, Script.Grown script.sentences := fun script hscript =>
      Chain.grown_of_mem_scripts hc.pruned hscript
    have hrest := ih (hp.ask hgrown turns a) (hq.ask hgrown' turns a) hagrees.player hlater
    rw [askAll, askAll, List.map_cons, List.map_cons, hagrees.under_eq d, hrest]

end

/-- Pruning changes nothing that is played. The chain of graphs that a host made and edited can be
built of the pruned graphs too. On a tour each call then ends as before: with the same error or none,
and with the same player but for its chain. -/
theorem plays_as_pruned (gs : List Graph) (hgs : ∀ g ∈ gs, g.Authored) (root : Uuid) {c : Chain}
    (hc : Chain.build .standard (.ofGraphs gs) root = .ok c) :
    ∃ c', Chain.build .standard (.ofGraphs (gs.map (Graph.pruned .standard))) root = .ok c' ∧
      ∀ (store : Store) (calls : List (Nat × HostCall)), (∀ call ∈ calls, call.2.OnTour) →
        (askAll (.new c' store) calls).map (Outcome.under c) =
          (askAll (.new c store) calls).map (Outcome.under c) := by
  have hstarted := Library.started_ofGraphs hgs
  rw [Library.ofGraphs_pruned]
  obtain ⟨c', hc'⟩ := Chain.exists_build ((Chain.buildable_of_build hc).pruned hstarted)
  have hboth : Counterparts (.ofGraphs gs) root c c' :=
    ⟨Library.keyed_ofGraphs gs, hstarted, hc, hc'⟩
  refine ⟨c', hc', fun store calls hcalls => ?_⟩
  have hnew : Along (Together (.ofGraphs gs) c c') (.new c store) (.new c' store) :=
    .rests c' nofun nofun
  exact askAll_under hboth (fit_new (Chain.walked_of_build hc) store)
    (fit_new (Chain.walked_of_build hc') store) hnew c hcalls

/-- The story at the gate jumps to the inn. By the outlet to the ruin it is never left. -/
def byway : Blueprint where
  name := "byway"
  id := none
  declarations := [.story "gate" ⟨⟨"gate", "[Jump] inn"⟩, []⟩ .origin,
    .story "ruin" ⟨⟨"ruin", ": nobody"⟩, []⟩ .origin, .story "inn" ⟨⟨"inn", ": warm"⟩, []⟩ .origin]
  links := [⟨"start", defaultOutlet, "gate"⟩, ⟨"gate", "ruin", "ruin"⟩, ⟨"gate", "inn", "inn"⟩]

def bywayGraph : Graph :=
  { Graph.bare (.ofNat 1) (.ofNat 2) (.ofNat 3) "byway" with
    stories := [
      .ofKind (.ofNat 4) (.story ⟨⟨"gate", "[Jump] inn"⟩, []⟩),
      .ofKind (.ofNat 5) (.story ⟨⟨"ruin", ": nobody"⟩, []⟩),
      .ofKind (.ofNat 6) (.story ⟨⟨"inn", ": warm"⟩, []⟩)]
    connections := [
      ⟨.ofNat 2, defaultOutlet, .ofNat 4, defaultOutlet⟩,
      ⟨.ofNat 4, "ruin", .ofNat 5, defaultOutlet⟩,
      ⟨.ofNat 4, "inn", .ofNat 6, defaultOutlet⟩] }

def bywayChain : Chain where
  root := .ofNat 1
  graphs := [(.ofNat 1, [
    ⟨.ofNat 4, .story ⟨"gate", "[Jump] inn"⟩ ⟨"gate", [.jump (some "inn")], [], ["inn"], []⟩ [],
      [("ruin", ⟨.ofNat 1, 1⟩), ("inn", ⟨.ofNat 1, 2⟩)]⟩,
    ⟨.ofNat 5, .story ⟨"ruin", ": nobody"⟩ ⟨"ruin", [.say ⟨"", "", "nobody"⟩], [], [], []⟩ [], []⟩,
    ⟨.ofNat 6, .story ⟨"inn", ": warm"⟩ ⟨"inn", [.say ⟨"", "", "warm"⟩], [], [], []⟩ [], []⟩])]
  stack := []
  current := ⟨.ofNat 1, 0⟩
  ended := false

theorem authored_byway : bywayGraph.Authored :=
  ⟨_, bywayGraph, [], .built (show (byway.build (.startingAt 1)).1 = .ok bywayGraph from rfl), rfl⟩

/-- The ruin is no longer part of the pruned chain, and the way to the inn is as before. -/
theorem plays_byway_pruned :
    let calls : List (Nat × HostCall) := [(9, .start), (9, .proceed), (9, .start)]
    (∀ g ∈ [bywayGraph], g.Authored) ∧
    Chain.build .standard (.ofGraphs [bywayGraph]) (.ofNat 1) = .ok bywayChain ∧
    (∀ call ∈ calls, call.2.OnTour) ∧
    ∃ c', Chain.build .standard (.ofGraphs [bywayGraph.pruned .standard]) (.ofNat 1) = .ok c' ∧
      (c'.nodes? (.ofNat 1)).map Chain.ids = some [.ofNat 4, .ofNat 6] ∧
      (askAll (.new c' .empty) calls).map (Outcome.under bywayChain) =
        (askAll (.new bywayChain .empty) calls).map (Outcome.under bywayChain) ∧
      ((askAll (.new bywayChain .empty) calls).map fun o => Event.lines o.player.events) =
        [["warm"], ["warm"], ["warm", "warm"]] := by
  intro calls
  have hauthored : ∀ g ∈ [bywayGraph], g.Authored := by
    intro g hg
    obtain rfl := List.mem_singleton.mp hg
    exact authored_byway
  have hbuild : Chain.build .standard (.ofGraphs [bywayGraph]) (.ofNat 1) = .ok bywayChain := by
    rfl
  have hcalls : ∀ call ∈ calls, call.2.OnTour := by
    intro call hcall
    simp only [calls, List.mem_cons, List.not_mem_nil, or_false] at hcall
    rcases hcall with rfl | rfl | rfl
    · exact .inl rfl
    · exact .inr ⟨.request .proceed, rfl⟩
    · exact .inl rfl
  obtain ⟨c', hc', hplays⟩ := plays_as_pruned [bywayGraph] hauthored (.ofNat 1) hbuild
  have hnodes : (Chain.build .standard (.ofGraphs [bywayGraph.pruned .standard]) (.ofNat 1)).map
      (fun c => (c.nodes? (.ofNat 1)).map Chain.ids) = .ok (some [.ofNat 4, .ofNat 6]) := by rfl
  rw [List.map_singleton] at hc'
  rw [hc'] at hnodes
  exact ⟨hauthored, hbuild, hcalls, c', hc', Except.ok.inj hnodes, hplays .empty calls hcalls, rfl⟩

end Player

end Fabula
