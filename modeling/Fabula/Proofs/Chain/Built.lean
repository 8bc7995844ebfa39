import Fabula.Proofs.Chain.Flattened

/-!
# What a chain holds

A chain can be built from a root if every graph that is called from there is in the library and
every story that can be reached compiles. It holds the called graphs and no others, each with
exactly the nodes that can be reached in it.
-/

namespace Fabula.Chain

open Relation (ReflTransGen)
open Script (Compiler)

/-- What building from a root needs. -/
structure Buildable (compiler : Compiler) (l : Library) (root : Uuid) : Prop where
  present : ∀ key, Called l root key → (l.get? key).isSome = true
  compiles : ∀ key id g d s, Reachable l root key id → l.get? key = some g →
    g.node? id = some d → d.kind = .story s →
    ∃ script, compiler.compile s.source.name s.source.text = .ok script

/-- The nodes of a graph in a chain: those that can be reached in it, the entry first, each once
and with branches where the routes lead. -/
structure Holds (compiler : Compiler) (l : Library) (root key : Uuid) (g : Graph)
    (nodes : List ChainNode) : Prop where
  mem_iff : ∀ id, id ∈ ids nodes ↔ Reachable l root key id
  nodup : (ids nodes).Nodup
  first : (ids nodes).head? = g.entry?
  made : ∀ n ∈ nodes, Made compiler g n
  linked : ∀ n ∈ nodes, Linked g (ids nodes) n

section
variable {compiler : Compiler} {l : Library} {root : Uuid}

theorem compile_of_kindOf {d : Node} {e : ChainError} (h : kindOf compiler d = .error e) :
    ∃ s, d.kind = .story s ∧
      ∀ script, compiler.compile s.source.name s.source.text ≠ .ok script := by
  unfold kindOf at h
  split at h
  · simp at h
  · simp at h
  · simp at h
  · rename_i s hkind
    refine ⟨s, hkind, fun script hcompile => ?_⟩
    simp [hcompile] at h

theorem mem_references {called : Uuid} {nodes : List ChainNode} :
    called ∈ references nodes ↔ ∃ n ∈ nodes, n.kind = .subgraph called := by
  unfold references
  rw [List.mem_filterMap]
  constructor
  · rintro ⟨n, hn, h⟩
    refine ⟨n, hn, ?_⟩
    split at h
    · rename_i graph hkind
      rw [hkind, Option.some.inj h]
    · simp at h
  · rintro ⟨n, hn, hkind⟩
    exact ⟨n, hn, by rw [hkind]⟩

theorem Made.kind_subgraph {g : Graph} {n : ChainNode} {d : Node} {called : Uuid}
    (h : Made compiler g n) (hnode : g.node? n.node = some d) :
    n.kind = .subgraph called ↔ d.kind = .subgraph called := by
  obtain ⟨e, he, hkind⟩ := h
  obtain rfl := Option.some.inj (hnode.symm.trans he)
  have hsub : kindOf compiler d = .ok (some (.subgraph called)) ↔ d.kind = .subgraph called :=
    kindOf_eq_subgraph_iff
  rw [hkind] at hsub
  simpa using hsub

theorem lookup_of_mem {α β : Type} [BEq α] [LawfulBEq α] {key : α} {value : β}
    {entries : List (α × β)} (hnodup : (entries.map Prod.fst).Nodup)
    (h : (key, value) ∈ entries) : entries.lookup key = some value := by
  obtain ⟨before, after, rfl⟩ := List.append_of_mem h
  refine List.lookup_eq_some_iff.mpr ⟨before, after, rfl, ?_⟩
  intro entry hentry
  rw [List.map_append, List.nodup_append] at hnodup
  have hne := hnodup.2.2 entry.1 (List.mem_map_of_mem hentry) key List.mem_cons_self
  simpa using Ne.symm hne

theorem mem_of_lookup {key : Uuid} {nodes : List ChainNode}
    {done : List (Uuid × List ChainNode)} (h : done.lookup key = some nodes) :
    (key, nodes) ∈ done := by
  obtain ⟨before, after, rfl, _⟩ := List.lookup_eq_some_iff.mp h
  exact List.mem_append_right _ List.mem_cons_self

/-- How far building has come. -/
structure Progress (compiler : Compiler) (l : Library) (root : Uuid) (queue seen : List Uuid)
    (done : List (Uuid × List ChainNode)) : Prop where
  queued : Queued queue seen done
  root_seen : root ∈ seen
  called : ∀ key ∈ seen, Called l root key
  flat : ∀ entry ∈ done, ∃ g, l.get? entry.1 = some g ∧ Flat compiler g entry.2
  closed : ∀ entry ∈ done, ∀ key ∈ references entry.2, key ∈ seen

theorem progress_root : Progress compiler l root [root] [root] [] where
  queued := queued_root root
  root_seen := List.mem_cons_self
  called := by
    intro key hkey
    obtain rfl := List.mem_singleton.mp hkey
    exact .root
  flat := by simp
  closed := by simp

namespace Progress
variable {key : Uuid} {queue seen : List Uuid} {done : List (Uuid × List ChainNode)} {g : Graph}
  {nodes : List ChainNode}

theorem called_head (h : Progress compiler l root (key :: queue) seen done) :
    Called l root key :=
  h.called key ((h.queued.seen key).mpr (List.mem_append_right _ List.mem_cons_self))

theorem reachable_of_flat (hcalled : Called l root key) (hg : l.get? key = some g)
    (hflat : Flat compiler g nodes) {id : Uuid} (hid : id ∈ ids nodes) :
    Reachable l root key id := by
  obtain ⟨first, hfirst, hreach⟩ := (hflat.mem_iff id).mp hid
  exact .trans hg (hcalled.reachable hg hfirst) hreach

theorem step (h : Progress compiler l root (key :: queue) seen done) (hg : l.get? key = some g)
    (hflat : Flat compiler g nodes) :
    Progress compiler l root (queue ++ unseen seen (references nodes))
      (seen ++ unseen seen (references nodes)) (done ++ [(key, nodes)]) := by
  constructor
  · exact h.queued.step nodes _
  · exact List.mem_append_left _ h.root_seen
  · intro other hother
    rcases List.mem_append.mp hother with hold | hfresh
    · exact h.called other hold
    · obtain ⟨n, hn, hkind⟩ := mem_references.mp (mem_unseen.mp hfresh).1
      have hid : n.node ∈ ids nodes := List.mem_map_of_mem hn
      obtain ⟨d, hnode, _⟩ := hflat.made n hn
      exact .node (reachable_of_flat h.called_head hg hflat hid) hg hnode
        (((hflat.made n hn).kind_subgraph hnode).mp hkind)
  · intro entry hentry
    rcases List.mem_append.mp hentry with hold | hnew
    · exact h.flat entry hold
    · obtain rfl := List.mem_singleton.mp hnew
      exact ⟨g, hg, hflat⟩
  · intro entry hentry other hother
    rcases List.mem_append.mp hentry with hold | hnew
    · exact List.mem_append_left _ (h.closed entry hold other hother)
    · obtain rfl := List.mem_singleton.mp hnew
      by_cases hseen : other ∈ seen
      · exact List.mem_append_left _ hseen
      · exact List.mem_append_right _ (mem_unseen.mpr ⟨hother, hseen⟩)

theorem not_buildable_of_missing (h : Progress compiler l root (key :: queue) seen done)
    (hmissing : l.get? key = none) : ¬ Buildable compiler l root := by
  intro hb
  have hpresent := hb.present key h.called_head
  simp [hmissing] at hpresent

theorem not_buildable_of_fails {e : ChainError}
    (h : Progress compiler l root (key :: queue) seen done) (hg : l.get? key = some g)
    (hfails : Flattens compiler g (.error e)) : ¬ Buildable compiler l root := by
  intro hb
  obtain ⟨first, id, d, hfirst, hreach, hnode, hkind⟩ := fails_of_flattens hfails
  obtain ⟨s, hs, hnone⟩ := compile_of_kindOf hkind
  have hid := Reachable.trans hg (h.called_head.reachable hg hfirst) hreach
  obtain ⟨script, hcompile⟩ := hb.compiles key id g d s hid hg hnode hs
  exact hnone script hcompile

end Progress

/-- Building ends with all graphs built, or the root cannot be built from. -/
theorem Builds.outcome {queue seen : List Uuid} {done : List (Uuid × List ChainNode)}
    {r : Except ChainError (List (Uuid × List ChainNode))}
    (h : Builds compiler l queue seen done r) (hp : Progress compiler l root queue seen done) :
    (∃ graphs all, r = .ok graphs ∧ Progress compiler l root [] all graphs) ∨
      (∃ e, r = .error e) ∧ ¬ Buildable compiler l root := by
  induction h with
  | done => exact .inl ⟨_, _, rfl, hp⟩
  | missing hmissing => exact .inr ⟨⟨_, rfl⟩, hp.not_buildable_of_missing hmissing⟩
  | fails hg hfails => exact .inr ⟨⟨_, rfl⟩, hp.not_buildable_of_fails hg hfails⟩
  | built hg hflat _ ih => exact ih (hp.step hg (flat_of_flattens hflat))

section
variable {all : List Uuid} {graphs : List (Uuid × List ChainNode)}

theorem Progress.mem_built_iff (h : Progress compiler l root [] all graphs) (key : Uuid) :
    key ∈ built graphs ↔ key ∈ all := by
  rw [h.queued.seen key, List.append_nil]

theorem Progress.nodup_built (h : Progress compiler l root [] all graphs) :
    (built graphs).Nodup := by simpa using h.queued.nodup

theorem Progress.flat_of_mem (h : Progress compiler l root [] all graphs) {key : Uuid}
    (hkey : key ∈ all) :
    ∃ g nodes, l.get? key = some g ∧ (key, nodes) ∈ graphs ∧ Flat compiler g nodes := by
  obtain ⟨entry, hentry, rfl⟩ := List.mem_map.mp ((h.mem_built_iff key).mpr hkey)
  obtain ⟨g, hg, hflat⟩ := h.flat entry hentry
  exact ⟨g, entry.2, hg, hentry, hflat⟩

/-- What can be reached was built. -/
theorem Progress.mem_of_reachable (h : Progress compiler l root [] all graphs) {key id : Uuid}
    (hid : Reachable l root key id) :
    ∃ g nodes, l.get? key = some g ∧ (key, nodes) ∈ graphs ∧ Flat compiler g nodes ∧
      id ∈ ids nodes := by
  induction hid with
  | root hg hfirst =>
    obtain ⟨g, nodes, hg', hmem, hflat⟩ := h.flat_of_mem h.root_seen
    obtain rfl := Option.some.inj (hg.symm.trans hg')
    exact ⟨_, nodes, hg, hmem, hflat, (hflat.mem_iff _).mpr ⟨_, hfirst, .refl⟩⟩
  | passes _ hg hpass ih =>
    obtain ⟨g, nodes, hg', hmem, hflat, ha⟩ := ih
    obtain rfl := Option.some.inj (hg.symm.trans hg')
    exact ⟨_, nodes, hg, hmem, hflat, mem_of_passes hflat.made hflat.linked ha hpass⟩
  | calls _ hg hnode hkind hcalled hfirst ih =>
    obtain ⟨g, nodes, hg', hmem, hflat, ha⟩ := ih
    obtain rfl := Option.some.inj (hg.symm.trans hg')
    obtain ⟨n, hn, rfl⟩ := List.mem_map.mp ha
    have hsub := ((hflat.made n hn).kind_subgraph hnode).mpr hkind
    have hall := h.closed _ hmem _ (mem_references.mpr ⟨n, hn, hsub⟩)
    obtain ⟨g, nodes, hg', hmem, hflat⟩ := h.flat_of_mem hall
    obtain rfl := Option.some.inj (hcalled.symm.trans hg')
    exact ⟨_, nodes, hcalled, hmem, hflat, (hflat.mem_iff _).mpr ⟨_, hfirst, .refl⟩⟩

theorem Progress.mem_all_iff (h : Progress compiler l root [] all graphs) (key : Uuid) :
    key ∈ all ↔ Called l root key := by
  constructor
  · exact h.called key
  · intro hkey
    cases hkey with
    | root => exact h.root_seen
    | node ha hg hnode hkind =>
      obtain ⟨g, nodes, hg', hmem, hflat, ha⟩ := h.mem_of_reachable ha
      obtain rfl := Option.some.inj (hg.symm.trans hg')
      obtain ⟨n, hn, rfl⟩ := List.mem_map.mp ha
      have hsub := ((hflat.made n hn).kind_subgraph hnode).mpr hkind
      exact h.closed _ hmem _ (mem_references.mpr ⟨n, hn, hsub⟩)

theorem Progress.buildable (h : Progress compiler l root [] all graphs) :
    Buildable compiler l root := by
  constructor
  · intro key hkey
    obtain ⟨g, _, hg, _⟩ := h.flat_of_mem ((h.mem_all_iff key).mpr hkey)
    simp [hg]
  · intro key id g d s hid hg hnode hs
    obtain ⟨g', nodes, hg', _, hflat, ha⟩ := h.mem_of_reachable hid
    obtain rfl := Option.some.inj (hg.symm.trans hg')
    obtain ⟨n, hn, rfl⟩ := List.mem_map.mp ha
    obtain ⟨d', hnode', hkind⟩ := hflat.made n hn
    obtain rfl := Option.some.inj (hnode.symm.trans hnode')
    cases hcompile : compiler.compile s.source.name s.source.text with
    | ok script => exact ⟨script, rfl⟩
    | error e => simp [kindOf, hs, hcompile] at hkind

theorem Progress.holds (h : Progress compiler l root [] all graphs) {key : Uuid}
    {nodes : List ChainNode} (hnodes : graphs.lookup key = some nodes) :
    ∃ g, l.get? key = some g ∧ Holds compiler l root key g nodes := by
  have hmem := mem_of_lookup hnodes
  obtain ⟨g, hg, hflat⟩ := h.flat _ hmem
  have hkey : key ∈ all := (h.mem_built_iff key).mp (List.mem_map_of_mem hmem)
  refine ⟨g, hg, ?_, hflat.nodup, hflat.first, hflat.made, hflat.linked⟩
  intro id
  constructor
  · exact Progress.reachable_of_flat (h.called key hkey) hg hflat
  · intro hid
    obtain ⟨_, nodes', _, hmem', _, hid⟩ := h.mem_of_reachable hid
    have hsame := (lookup_of_mem h.nodup_built hmem').symm.trans hnodes
    rwa [Option.some.inj hsame] at hid

theorem Progress.lookup_isSome (h : Progress compiler l root [] all graphs) (key : Uuid) :
    (graphs.lookup key).isSome = true ↔ Called l root key := by
  rw [← h.mem_all_iff key, ← h.mem_built_iff key]
  constructor
  · intro hsome
    obtain ⟨nodes, hnodes⟩ := Option.isSome_iff_exists.mp hsome
    exact List.mem_map_of_mem (mem_of_lookup hnodes)
  · intro hmem
    obtain ⟨entry, hentry, rfl⟩ := List.mem_map.mp hmem
    rw [lookup_of_mem h.nodup_built hentry, Option.isSome_some]

end

theorem progress_of_build {c : Chain} (h : build compiler l root = .ok c) :
    ∃ all, Progress compiler l root [] all c.graphs := by
  have hbuilds := builds_build compiler l root
  rw [h] at hbuilds
  rcases hbuilds.outcome progress_root with ⟨graphs, all, hok, hp⟩ | ⟨⟨e, he⟩, _⟩
  · obtain rfl : c.graphs = graphs := Except.ok.inj hok
    exact ⟨all, hp⟩
  · simp [Except.map] at he

/-- A chain that was just built stands at the first place of its root graph. -/
theorem opening_of_build {c : Chain} (h : build compiler l root = .ok c) :
    c.root = root ∧ c.stack = [] ∧ c.current = ⟨root, 0⟩ ∧ c.ended = false := by
  unfold build at h
  cases hall : flattenAll compiler l (l.size + 1) [root] [root] [] with
  | error e => simp [hall, Except.map] at h
  | ok graphs =>
    rw [hall] at h
    obtain rfl := Except.ok.inj h
    exact ⟨rfl, rfl, rfl, rfl⟩

theorem root_of_build {c : Chain} (h : build compiler l root = .ok c) : c.root = root :=
  (opening_of_build h).1

theorem buildable_of_build {c : Chain} (h : build compiler l root = .ok c) :
    Buildable compiler l root := by
  obtain ⟨all, hp⟩ := progress_of_build h
  exact hp.buildable

theorem exists_build (h : Buildable compiler l root) : ∃ c, build compiler l root = .ok c := by
  cases hc : build compiler l root with
  | ok c => exact ⟨c, rfl⟩
  | error e =>
    have hbuilds := builds_build compiler l root
    rw [hc] at hbuilds
    rcases hbuilds.outcome progress_root with ⟨graphs, all, hok, _⟩ | ⟨_, hnot⟩
    · simp [Except.map] at hok
    · exact absurd h hnot

end

/-- Building comes to an end; it succeeds exactly if the called graphs are there and the reachable
stories compile, and then the chain holds each called graph with exactly its reachable nodes. -/
theorem builds_exactly_the_reachable (compiler : Compiler) (l : Library) (hl : l.Keyed)
    (root : Uuid) :
    Builds compiler l [root] [root] [] ((build compiler l root).map Chain.graphs) ∧
    ((∃ c, build compiler l root = .ok c) ↔ Buildable compiler l root) ∧
    ∀ c, build compiler l root = .ok c → ∀ key,
      ((c.nodes? key).isSome = true ↔ Called l root key) ∧
      ∀ nodes, c.nodes? key = some nodes →
        ∃ g, l.get? key = some g ∧ g.id = key ∧ Holds compiler l root key g nodes := by
  refine ⟨builds_build compiler l root, ⟨?_, exists_build⟩, ?_⟩
  · rintro ⟨c, hc⟩
    exact buildable_of_build hc
  · intro c hc key
    obtain ⟨all, hp⟩ := progress_of_build hc
    refine ⟨hp.lookup_isSome key, fun nodes hnodes => ?_⟩
    obtain ⟨g, hg, hholds⟩ := hp.holds hnodes
    exact ⟨g, hg, hl.id_eq hg, hholds⟩

/-- A story and a call that lead to each other, a connection that leads nowhere, and a called graph
that is empty. -/
def roundabout : Library := ⟨[
  (.ofNat 1, { Graph.bare (.ofNat 1) (.ofNat 2) (.ofNat 3) "outer" with
    stories := [.ofKind (.ofNat 4) (.story ⟨⟨"a", ": ping"⟩, []⟩)]
    subgraphs := [.ofKind (.ofNat 5) (.subgraph (.ofNat 6))]
    connections := [
      ⟨.ofNat 2, defaultOutlet, .ofNat 4, defaultOutlet⟩,
      ⟨.ofNat 4, defaultOutlet, .ofNat 9, defaultOutlet⟩,
      ⟨.ofNat 4, defaultOutlet, .ofNat 5, defaultOutlet⟩,
      ⟨.ofNat 5, defaultOutlet, .ofNat 4, defaultOutlet⟩] }),
  (.ofNat 6, Graph.bare (.ofNat 6) (.ofNat 7) (.ofNat 8) "inner")]⟩

theorem keyed_roundabout : roundabout.Keyed := by
  intro entry hentry
  rcases List.mem_cons.mp hentry with rfl | hentry
  · rfl
  · obtain rfl := List.mem_singleton.mp hentry
    rfl

def roundaboutChain : Chain where
  root := .ofNat 1
  graphs := [
    (.ofNat 1, [
      ⟨.ofNat 4, .story ⟨"a", ": ping"⟩ ⟨"a", [.say ⟨"", "", "ping"⟩], [], [], []⟩ [],
        [(defaultOutlet, ⟨.ofNat 1, 1⟩)]⟩,
      ⟨.ofNat 5, .subgraph (.ofNat 6), [(defaultOutlet, ⟨.ofNat 1, 0⟩)]⟩]),
    (.ofNat 6, [])]
  stack := []
  current := ⟨.ofNat 1, 0⟩
  ended := false

theorem build_roundabout : build .standard roundabout (.ofNat 1) = .ok roundaboutChain := by rfl

/-- The story and the call are all that is reachable in the first graph, and nothing is reachable
in the second. -/
theorem reachable_in_roundabout : roundabout.Keyed ∧ Buildable .standard roundabout (.ofNat 1) ∧
    (∀ id, Reachable roundabout (.ofNat 1) (.ofNat 1) id ↔ id ∈ [.ofNat 4, .ofNat 5]) ∧
    ∀ id, ¬ Reachable roundabout (.ofNat 1) (.ofNat 6) id := by
  have hall := builds_exactly_the_reachable .standard roundabout keyed_roundabout (.ofNat 1)
  have hchain := hall.2.2 roundaboutChain build_roundabout
  refine ⟨keyed_roundabout, hall.2.1.mp ⟨_, build_roundabout⟩, fun id => ?_, fun id => ?_⟩
  · obtain ⟨_, _, _, hholds⟩ := (hchain (.ofNat 1)).2 _ rfl
    exact (hholds.mem_iff id).symm
  · obtain ⟨_, _, _, hholds⟩ := (hchain (.ofNat 6)).2 [] rfl
    exact fun hid => List.not_mem_nil ((hholds.mem_iff id).mpr hid)

end Fabula.Chain
