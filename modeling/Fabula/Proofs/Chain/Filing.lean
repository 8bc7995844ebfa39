import Fabula.Graph.Json
import Fabula.Proofs.Chain.Footing

/-!
# Where graphs are filed

A library says under which key each of its graphs is filed, and a chain keeps the nodes of a graph
under that key. The branches of the nodes go by the graph's own id. So a walk keeps to the graphs
of the library exactly if every graph in which control passes is called, and filed, under its own
id as well. That is so in a library that was put together graph by graph, and in one that was read
from a text in which the ids agree with the keys.
-/

namespace Fabula

/-- A graph in which control passes from a node is called and filed under its own id. -/
def Filed (l : Library) (root : Uuid) : Prop :=
  ∀ key g a b, Reachable l root key a → l.get? key = some g → g.Passes a b →
    Called l root g.id ∧ l.get? g.id = some g

section
variable {l : Library} {root : Uuid}

theorem Reachable.called {key id : Uuid} (h : Reachable l root key id) : Called l root key := by
  induction h with
  | root => exact .root
  | passes _ _ _ ih => exact ih
  | calls ha hg hnode hkind => exact .node ha hg hnode hkind

theorem Library.Keyed.filed (hl : l.Keyed) (root : Uuid) : Filed l root := by
  intro key g a b ha hg _
  rw [hl.id_eq hg]
  exact ⟨ha.called, hg⟩

namespace Library

/-- A graph with an id keeps it, whatever else it is completed with. -/
theorem id_of_complete {sketch : Graph.Sketch} {id : Uuid} (h : sketch.id = some id)
    (supply : IdSupply) : (sketch.complete.run supply).1.id = id := by
  rw [Graph.Sketch.complete, h]
  rfl

theorem keyed_put {key : Uuid} {g : Graph} (hl : l.Keyed) (h : g.id = key) :
    Keyed ⟨put key g l.entries⟩ := by
  intro entry hentry
  rcases mem_put hentry with rfl | hold
  · exact h.symm
  · exact hl entry hold

/-- A library that was read from a text is keyed if the ids in the text agree with the keys. -/
theorem keyed_complete {entries : List (Uuid × Graph.Sketch)}
    (h : ∀ entry ∈ entries, entry.2.id = some entry.1) (hl : l.Keyed) (supply : IdSupply) :
    ((complete entries l).run supply).1.Keyed := by
  induction entries generalizing l supply with
  | nil => exact hl
  | cons entry rest ih =>
    have hid := id_of_complete (h entry List.mem_cons_self) supply
    exact ih (fun other hother => h other (List.mem_cons_of_mem entry hother))
      (keyed_put hl hid) _

end Library

end

namespace Chain

open Script (Compiler)

/-- A place of a node that was built from the graph under a key. -/
def Within (c : Chain) (l : Library) (key : Uuid) (t : Target) : Prop :=
  c.Occupied t ∧ l.get? t.graph = l.get? key

section
variable {compiler : Compiler} {l : Library} {root : Uuid} {c d : Chain}

theorem Flat.length_eq {g : Graph} {nodes others : List ChainNode} (h : Flat compiler g nodes)
    (hothers : Flat compiler g others) : nodes.length = others.length := by
  have hsame : ∀ id, id ∈ ids nodes ↔ id ∈ ids others := fun id =>
    (h.mem_iff id).trans (hothers.mem_iff id).symm
  have hperm := (List.perm_ext_iff_of_nodup h.nodup hothers.nodup).mpr hsame
  simpa [ids] using hperm.length_eq

theorem Flat.passes_of_branch {g : Graph} {nodes : List ChainNode} {n : ChainNode} {t : Target}
    (h : Flat compiler g nodes) (hn : n ∈ nodes) (ht : t ∈ n.branches.map Prod.snd) :
    ∃ b, g.Passes n.node b := by
  obtain ⟨⟨outlet, u⟩, hbranch, rfl⟩ := List.mem_map.mp ht
  have hlinked := h.linked n hn
  have hopen : n.kind ≠ .finish := by
    intro hfinish
    rw [hlinked.finish hfinish] at hbranch
    exact List.not_mem_nil hbranch
  obtain ⟨data, hnode, hkind⟩ := h.made n hn
  have hmade : Made compiler g n := ⟨data, hnode, hkind⟩
  have hrel := hlinked.branch hopen outlet
  rw [ChainNode.branch?, lookup_of_mem hlinked.nodup hbranch] at hrel
  cases hnext : g.next? n.node outlet with
  | none =>
    rw [hnext] at hrel
    cases hrel
  | some b => exact ⟨b, ⟨data, hnode, (hmade.open_iff hnode).mp hopen⟩, outlet, hnext⟩

theorem Flat.branch_of_passes {g : Graph} {nodes : List ChainNode} {a b : Uuid}
    (h : Flat compiler g nodes) (ha : a ∈ ids nodes) (hpass : g.Passes a b) :
    ∃ n ∈ nodes, ∃ t ∈ n.branches.map Prod.snd, t.graph = g.id := by
  obtain ⟨n, hn, rfl⟩ := List.mem_map.mp ha
  obtain ⟨⟨data, hnode, hopen⟩, outlet, hnext⟩ := hpass
  have hrel := (h.linked n hn).branch (((h.made n hn).open_iff hnode).mpr hopen) outlet
  rw [hnext] at hrel
  cases hbranch : n.branch? outlet with
  | none =>
    rw [hbranch] at hrel
    cases hrel
  | some t =>
    rw [hbranch] at hrel
    cases hrel with
    | some hstands =>
      obtain ⟨before, after, hbranches, _⟩ := List.lookup_eq_some_iff.mp hbranch
      exact ⟨n, hn, t, by simp [hbranches], hstands.1⟩

theorem within_of_filed (hfiled : Filed l root) (h : build compiler l root = .ok c)
    {entry : Uuid × List ChainNode} {n : ChainNode} {t : Target} (hentry : entry ∈ c.graphs)
    (hn : n ∈ entry.2) (ht : t ∈ n.branches.map Prod.snd) : c.Within l entry.1 t := by
  obtain ⟨all, hp⟩ := progress_of_build h
  obtain ⟨g, hg, hflat⟩ := hp.flat entry hentry
  obtain ⟨b, hpass⟩ := hflat.passes_of_branch hn ht
  have hcalled : Called l root entry.1 :=
    (hp.mem_all_iff _).mp ((hp.mem_built_iff _).mp (List.mem_map_of_mem hentry))
  have hreach := Progress.reachable_of_flat hcalled hg hflat (List.mem_map_of_mem hn)
  obtain ⟨hown, hsame⟩ := hfiled entry.1 g n.node b hreach hg hpass
  obtain ⟨hgraph, hlt⟩ := (hflat.linked n hn).target_lt ht
  obtain ⟨g', nodes, hg', hnodes, hflat'⟩ := hp.flat_of_mem ((hp.mem_all_iff _).mpr hown)
  obtain rfl := Option.some.inj (hsame.symm.trans hg')
  refine ⟨⟨nodes, ?_, ?_⟩, ?_⟩
  · rw [nodes?, hgraph]
    exact lookup_of_mem hp.nodup_built hnodes
  · rw [← hflat.length_eq hflat']
    exact hlt
  · rw [hgraph, hsame, hg]

/-- What a chain names: the first place of a called graph, or a place in a called graph that goes
by the graph's own id. -/
theorem called_or_own_of_mem_places (h : build compiler l root = .ok c) {t : Target}
    (ht : t ∈ c.places) : (Called l root t.graph ∧ t.index = 0) ∨
      ∃ entry ∈ c.graphs, ∃ n ∈ entry.2, t ∈ n.branches.map Prod.snd := by
  obtain ⟨all, hp⟩ := progress_of_build h
  rcases List.mem_cons.mp ht with rfl | ht
  · rw [root_of_build h]
    exact .inl ⟨.root, rfl⟩
  · obtain ⟨entry, hentry, ht⟩ := List.mem_flatMap.mp ht
    obtain ⟨n, hn, ht⟩ := List.mem_flatMap.mp ht
    rcases List.mem_append.mp ht with hbranch | hcalled
    · exact .inr ⟨entry, hentry, n, hn, hbranch⟩
    · cases hkind : n.kind with
      | subgraph called =>
        rw [hkind] at hcalled
        obtain rfl := List.mem_singleton.mp hcalled
        have hall := hp.closed entry hentry called (mem_references.mpr ⟨n, hn, hkind⟩)
        exact .inl ⟨(hp.mem_all_iff called).mp hall, rfl⟩
      | story source script names => simp [hkind] at hcalled
      | finish => simp [hkind] at hcalled

theorem standable_of_called (h : build compiler l root = .ok c) {key : Uuid}
    (hkey : Called l root key) : c.Standable ⟨key, 0⟩ := by
  obtain ⟨all, hp⟩ := progress_of_build h
  exact standable_first hp ((hp.mem_all_iff key).mpr hkey)

theorem firm_of_filed (hfiled : Filed l root) (h : build compiler l root = .ok c) : Firm c := by
  constructor
  · intro t ht
    rcases called_or_own_of_mem_places h ht with ⟨hcalled, hindex⟩ | ⟨entry, hentry, n, hn, ht⟩
    · rw [show t = ⟨t.graph, 0⟩ by rw [← hindex]]
      exact standable_of_called h hcalled
    · exact .inl (within_of_filed hfiled h hentry hn ht).1
  · rintro t ⟨entry, hentry, n, hn, _, _, hbranch⟩
    obtain ⟨before, after, hbranches, _⟩ := List.lookup_eq_some_iff.mp hbranch
    exact (within_of_filed hfiled h hentry hn (by simp [hbranches])).1

theorem nodeAt_eq_error {t : Target} {e : ChainError} (h : d.nodeAt t = .error e) :
    e = .missingGraph t.graph ∧ d.nodes? t.graph = none := by
  unfold nodeAt at h
  cases hnodes : d.nodes? t.graph with
  | some nodes => simp [hnodes] at h
  | none =>
    rw [hnodes] at h
    exact ⟨(Except.error.inj h).symm, rfl⟩

theorem arrival_eq_error {t : Target} {e : ChainError} (h : d.arrival t = .error e) :
    e = .missingGraph t.graph ∧ d.nodes? t.graph = none := by
  rcases hat : d.nodeAt t with e' | (_ | n)
  · obtain rfl : e' = e := by simpa [arrival, hat] using h
    exact nodeAt_eq_error hat
  · simp [arrival, hat] at h
  · cases hkind : n.kind <;> simp [arrival, hat, hkind] at h

/-- A place that the chain names, in a graph that it does not hold. -/
def Missing (c : Chain) (id : Uuid) : Prop := ∃ t ∈ c.places, t.graph = id ∧ c.nodes? id = none

theorem missing_of_walked (h : Walked c d) (hnone : d.nodes? d.current.graph = none) :
    c.Missing d.current.graph :=
  ⟨d.current, h.current, rfl, by rwa [nodes?, ← h.graphs]⟩

theorem missing_of_stops {id : Uuid} {d' : Chain} (h : Walked c d)
    (hstops : Stops d (.error (.missingGraph id), d')) : c.Missing id := by
  generalize hr : (Except.error (ChainError.missingGraph id) : Except ChainError Step) = r at hstops
  generalize hanswer : (r, d') = answer at hstops
  cases hstops with
  | lost hat =>
    obtain ⟨rfl, rfl⟩ := Prod.mk.inj hanswer
    obtain ⟨herror, hnone⟩ := arrival_eq_error hat
    obtain rfl := ChainError.missingGraph.inj ((Except.error.inj hr).trans herror)
    exact missing_of_walked h hnone
  | story | ended => simp [← hr] at hanswer
  | tooDeep _ hpush =>
    rw [pushReturn_eq_error hpush] at hanswer
    simp [← hr] at hanswer
  | tooLong => simp [← hr] at hanswer

theorem missing_of_enter {id : Uuid} {t : Target} (h : Walked c d) (ht : t ∈ c.places)
    (hmissing : (d.enter maxTransferHops t).1 = .error (.missingGraph id)) : c.Missing id := by
  obtain ⟨e, hwalk, hstops⟩ := exists_stops t d
  have hpair : d.enter maxTransferHops t =
      (.error (.missingGraph id), (d.enter maxTransferHops t).2) := by rw [← hmissing]
  rw [hpair] at hstops
  exact missing_of_stops ((h.move ht).hops hwalk) hstops

theorem missing_of_leaveBy {id : Uuid} {outlet : String} (h : Walked c d)
    (hmissing : (d.leaveBy outlet).1 = .error (.missingGraph id)) : c.Missing id := by
  have hleaves := leaves_leaveBy d outlet
  generalize d.leaveBy outlet = answer at hleaves hmissing
  cases hleaves with
  | ended | stays => simp at hmissing
  | lost _ hat =>
    obtain ⟨rfl, hnone⟩ := nodeAt_eq_error hat
    obtain rfl := ChainError.missingGraph.inj (Except.error.inj hmissing)
    exact missing_of_walked h hnone
  | enters _ honward => exact missing_of_enter h (h.onward honward) hmissing

theorem missing_of_make {id : Uuid} {m : Move} (h : Walked c d)
    (hmissing : (d.make m).1 = .error (.missingGraph id)) : c.Missing id := by
  cases m with
  | reset =>
    refine missing_of_enter (d := { d with stack := [], ended := false }) ?_ ?_ hmissing
    · exact ⟨h.root, h.graphs, h.current, by simp, by simp⟩
    · rw [h.root]
      exact List.mem_cons_self
  | next => exact missing_of_leaveBy h hmissing
  | leave outlet => exact missing_of_leaveBy h hmissing

theorem Walked.make (h : Walked c d) (m : Move) : Walked c (d.make m).2 := by
  cases m with
  | reset => exact h.reset
  | next => exact h.leaveBy defaultOutlet
  | leave outlet => exact h.leaveBy outlet

theorem Walked.after (h : Walked c d) (moves : List Move) : Walked c (d.after moves) := by
  induction moves generalizing d with
  | nil => exact h
  | cons m moves ih => exact ih (h.make m)

/-- A graph is missed under its own id, by a node of a graph that is filed elsewhere. -/
theorem own_of_missing (h : build compiler l root = .ok c) {id : Uuid} (hmissing : c.Missing id) :
    ¬ Called l root id ∧ ∃ key g, Called l root key ∧ l.get? key = some g ∧ g.id = id := by
  obtain ⟨t, ht, rfl, hnone⟩ := hmissing
  obtain ⟨all, hp⟩ := progress_of_build h
  have hnot : ¬ Called l root t.graph := by
    intro hcalled
    have hsome := (hp.lookup_isSome t.graph).mpr hcalled
    rw [show c.graphs.lookup t.graph = none from hnone] at hsome
    simp at hsome
  refine ⟨hnot, ?_⟩
  rcases called_or_own_of_mem_places h ht with ⟨hcalled, _⟩ | ⟨entry, hentry, n, hn, ht⟩
  · exact absurd hcalled hnot
  · obtain ⟨g, hg, hflat⟩ := hp.flat entry hentry
    have hall : entry.1 ∈ all := (hp.mem_built_iff _).mp (List.mem_map_of_mem hentry)
    exact ⟨entry.1, g, (hp.mem_all_iff _).mp hall, hg, ((hflat.linked n hn).target_lt ht).1.symm⟩

theorem filed_of_within (h : build compiler l root = .ok c)
    (hwithin : ∀ entry ∈ c.graphs, ∀ n ∈ entry.2, ∀ t ∈ n.branches.map Prod.snd,
      c.Within l entry.1 t) : Filed l root := by
  obtain ⟨all, hp⟩ := progress_of_build h
  intro key g a b ha hg hpass
  obtain ⟨g', nodes, hg', hnodes, hflat, hid⟩ := hp.mem_of_reachable ha
  obtain rfl := Option.some.inj (hg.symm.trans hg')
  obtain ⟨n, hn, t, ht, hgraph⟩ := hflat.branch_of_passes hid hpass
  obtain ⟨⟨built, hbuilt, _⟩, hsame⟩ := hwithin _ hnodes n hn t ht
  rw [hgraph] at hbuilt hsame
  exact ⟨(hp.lookup_isSome _).mp (Option.isSome_iff_exists.mpr ⟨built, hbuilt⟩), hsame.trans hg⟩

end

/-- A built chain misses no graph, and its branches keep to the graphs of their nodes, exactly if
the graphs are filed under their own ids as far as control passes. A graph that is missed was not
called under the id that is missed, and it is the own id of a graph that was called. -/
theorem never_lost_iff_filed (compiler : Compiler) (l : Library) (root : Uuid) {c : Chain}
    (h : build compiler l root = .ok c) :
    (((∀ moves m id, ((c.after moves).make m).1 ≠ .error (.missingGraph id)) ∧
      ∀ entry ∈ c.graphs, ∀ n ∈ entry.2, ∀ t ∈ n.branches.map Prod.snd, c.Within l entry.1 t) ↔
      Filed l root) ∧
    ∀ moves m id, ((c.after moves).make m).1 = .error (.missingGraph id) →
      ¬ Called l root id ∧ ∃ key g, Called l root key ∧ l.get? key = some g ∧ g.id = id := by
  refine ⟨⟨fun ⟨_, hwithin⟩ => filed_of_within h hwithin, fun hfiled => ⟨?_, ?_⟩⟩, ?_⟩
  · intro moves m id hmissing
    have hfirm := firm_of_filed hfiled h
    have hsound := (((calling_of_build h).after hfirm moves).make hfirm m).2
    rcases hsound.overrun _ hmissing with hdeep | hlong
    · simp at hdeep
    · simp at hlong
  · exact fun entry hentry n hn t ht => within_of_filed hfiled h hentry hn ht
  · intro moves m id hmissing
    exact own_of_missing h (missing_of_make ((walked_of_build h).after moves) hmissing)

/-- The text of a library whose only graph is filed under a key that is not the graph's id. -/
def misfiledText : Json := .obj [("graphs", .obj [("00000000000000000000000000000001", .obj [
  ("connections", .arr [
    .obj [("from", .str "00000000000000000000000000000003"),
      ("to", .str "00000000000000000000000000000005")],
    .obj [("from", .str "00000000000000000000000000000005"),
      ("to", .str "00000000000000000000000000000006")]]),
  ("end", .obj [("id", .str "00000000000000000000000000000004"), ("type", .str "End")]),
  ("id", .str "00000000000000000000000000000002"),
  ("name", .str "outer"),
  ("start", .obj [("id", .str "00000000000000000000000000000003"), ("type", .str "Start")]),
  ("stories", .arr [
    .obj [("id", .str "00000000000000000000000000000005"),
      ("source", .obj [("name", .str "a"), ("text", .str ": one")]), ("type", .str "Story")],
    .obj [("id", .str "00000000000000000000000000000006"),
      ("source", .obj [("name", .str "b"), ("text", .str ": two")]),
      ("type", .str "Story")]])])])]

def misfiled : Library := ⟨[
  (.ofNat 1, { Graph.bare (.ofNat 2) (.ofNat 3) (.ofNat 4) "outer" with
    stories := [.ofKind (.ofNat 5) (.story ⟨⟨"a", ": one"⟩, []⟩),
      .ofKind (.ofNat 6) (.story ⟨⟨"b", ": two"⟩, []⟩)]
    connections := [
      ⟨.ofNat 3, defaultOutlet, .ofNat 5, defaultOutlet⟩,
      ⟨.ofNat 5, defaultOutlet, .ofNat 6, defaultOutlet⟩] })]⟩

theorem read_misfiledText (supply : IdSupply) :
    (Library.ofJson? misfiledText).map (fun read => (read.run supply).1) = some misfiled := by
  rfl

def misfiledChain : Chain where
  root := .ofNat 1
  graphs := [
    (.ofNat 1, [
      ⟨.ofNat 5, .story ⟨"a", ": one"⟩ ⟨"a", [.say ⟨"", "", "one"⟩], [], [], []⟩ [],
        [(defaultOutlet, ⟨.ofNat 2, 1⟩)]⟩,
      ⟨.ofNat 6, .story ⟨"b", ": two"⟩ ⟨"b", [.say ⟨"", "", "two"⟩], [], [], []⟩ [], []⟩])]
  stack := []
  current := ⟨.ofNat 1, 0⟩
  ended := false

theorem build_misfiled : build .standard misfiled (.ofNat 1) = .ok misfiledChain := by rfl

/-- The second story is never played: its place is looked for in a graph that was not built. -/
theorem lost_in_misfiled :
    (misfiledChain.make .reset).1 = .ok (.story ⟨"a", [.say ⟨"", "", "one"⟩], [], [], []⟩) ∧
    ((misfiledChain.after [.reset]).make .next).1 = .error (.missingGraph (.ofNat 2)) ∧
    ¬ Filed misfiled (.ofNat 1) ∧ ¬ Called misfiled (.ofNat 1) (.ofNat 2) := by
  have h := never_lost_iff_filed .standard misfiled (.ofNat 1) build_misfiled
  have hlost : ((misfiledChain.after [.reset]).make .next).1 =
      .error (.missingGraph (.ofNat 2)) := by rfl
  refine ⟨rfl, hlost, fun hfiled => ?_, (h.2 [.reset] .next _ hlost).1⟩
  exact (h.1.mpr hfiled).1 [.reset] .next _ hlost

/-- The text is read and its chain is built, and yet a branch leads out of the chain. -/
theorem read_built_and_lost :
    (Library.ofJson? misfiledText).map (fun read => (read.run (.startingAt 7)).1) =
      some misfiled ∧
    build .standard misfiled (.ofNat 1) = .ok misfiledChain ∧
    ¬ ((∀ moves m id,
        ((misfiledChain.after moves).make m).1 ≠ .error (.missingGraph id)) ∧
      ∀ entry ∈ misfiledChain.graphs, ∀ n ∈ entry.2, ∀ t ∈ n.branches.map Prod.snd,
        misfiledChain.Within misfiled entry.1 t) := by
  refine ⟨read_misfiledText (.startingAt 7), build_misfiled, ?_⟩
  rintro ⟨hkept, _⟩
  exact hkept [.reset] .next (.ofNat 2) rfl

end Chain

end Fabula
