import Fabula.Graph.Blueprint
import Fabula.Graph.Outlets

/-!
# Edits

A host edits a graph that was made bare or built from a blueprint. No edit, and no part of one that
fails, spoils the order of the nodes or the wiring: connections join nodes of the graph, no two are
equal, and by an outlet other than the default one at most one leaves a node.
-/

namespace Fabula

/-- The node at another place in the editor. -/
def Node.moved (position : Position) (n : Node) : Node := { n with position }

@[simp] theorem Node.moved_id (position : Position) (n : Node) : (n.moved position).id = n.id := rfl

namespace Graph

open Script (Compiler)

/-- What a host does to a graph. -/
inductive Edit where
  | add (n : Node)
  | addAll (ns : List Node)
  | remove (id : Uuid)
  | removeWhere (p : Node → Bool)
  | move (id : Uuid) (position : Position)
  | connect (c : Connection)
  | disconnect (c : Connection)
  | prune (compiler : Compiler)

/-- The graph after an edit, which may have failed. -/
def edit (g : Graph) : Edit → Graph
  | .add n => (g.addNode n).toOption.getD g
  | .addAll ns => (g.addNodes ns).2
  | .remove id => ((g.removeNode id).map Prod.snd).getD g
  | .removeWhere p => (g.removeWhere p).2
  | .move id position => (g.moveNode id position).toOption.getD g
  | .connect c => (g.tryConnect c).2
  | .disconnect c => (g.disconnect c).2
  | .prune compiler => (g.prune compiler).2

def editAll (g : Graph) (edits : List Edit) : Graph := edits.foldl edit g

/-- A graph as a host first gets it, and the bare graph that it was made from. -/
inductive Created : Graph → Graph → Prop
  | bare (id : Option Uuid) (name : String) (supply : IdSupply) :
      Created (make id name supply).1 (make id name supply).1
  | built {b : Blueprint} {supply : IdSupply} {g : Graph} : (b.build supply).1 = .ok g →
      Created (make b.id b.name supply).1 g

/-- The ids of the nodes in their order. -/
def ids (g : Graph) : List Uuid := g.nodes.map Node.id

/-- The graph with some of its connections, and without the story and subgraph nodes that satisfy
`p`. -/
def without (g : Graph) (p : Node → Bool) (cs : List Connection) : Graph :=
  { g with
    stories := g.stories.filter fun n => !p n
    subgraphs := g.subgraphs.filter fun n => !p n
    connections := cs }

/-- The nodes are of the kinds that their places are for. -/
structure Arranged (g : Graph) : Prop where
  start : g.start.kind = .start
  finish : g.finish.kind = .finish
  stories : ∀ n ∈ g.stories, n.isStory = true
  subgraphs : ∀ n ∈ g.subgraphs, n.isSubgraph = true

/-- Connections between nodes with the given ids, as the editor keeps them. -/
structure Wired (ids : List Uuid) (cs : List Connection) : Prop where
  joined : ∀ c ∈ cs, c.source ∈ ids ∧ c.target ∈ ids
  distinct : cs.Nodup
  single : ∀ id outlet, outlet ≠ defaultOutlet →
    cs.countP (fun c => c.source == id && c.outlet == outlet) ≤ 1

/-- What every edit keeps of a graph made from a bare one. -/
structure Sound (bare g : Graph) : Prop where
  start_id : g.start.id = bare.start.id
  finish_id : g.finish.id = bare.finish.id
  arranged : g.Arranged
  wired : Wired g.ids g.connections

section
variable {ids ids' : List Uuid} {cs cs' : List Connection}

theorem wired_nil (ids : List Uuid) : Wired ids [] :=
  ⟨by simp, List.nodup_nil, by simp⟩

/-- Fewer connections are wired as well, if their ends are still there. -/
theorem Wired.sublist (h : Wired ids cs) (hsub : cs'.Sublist cs)
    (hends : ∀ c ∈ cs', c.source ∈ ids' ∧ c.target ∈ ids') : Wired ids' cs' :=
  ⟨hends, hsub.nodup h.distinct,
    fun id outlet hnamed => Nat.le_trans hsub.countP_le (h.single id outlet hnamed)⟩

theorem Wired.mono (h : Wired ids cs) (hids : ids ⊆ ids') : Wired ids' cs :=
  h.sublist (List.Sublist.refl cs) fun c hc => ⟨hids (h.joined c hc).1, hids (h.joined c hc).2⟩

theorem Wired.concat {c : Connection} (h : Wired ids cs) (hsource : c.source ∈ ids)
    (htarget : c.target ∈ ids) (hnew : c ∉ cs)
    (hfree : c.outlet ≠ defaultOutlet → ∀ d ∈ cs, d.source = c.source → d.outlet ≠ c.outlet) :
    Wired ids (cs ++ [c]) := by
  refine ⟨?_, ?_, ?_⟩
  · intro d hd
    rcases List.mem_append.mp hd with hd | hd
    · exact h.joined d hd
    · obtain rfl := List.mem_singleton.mp hd
      exact ⟨hsource, htarget⟩
  · exact List.nodup_append.mpr ⟨h.distinct, by simp, by rintro a ha b hb rfl; simp_all⟩
  · intro id outlet hnamed
    have hold := h.single id outlet hnamed
    rw [List.countP_append, List.countP_singleton]
    split
    · rename_i hmatch
      obtain ⟨rfl, rfl⟩ : c.source = id ∧ c.outlet = outlet := by simpa using hmatch
      have hnone : cs.countP (fun d => d.source == c.source && d.outlet == c.outlet) = 0 := by
        rw [List.countP_eq_zero]
        intro d hd
        simpa using hfree hnamed d hd
      omega
    · omega

end

section
variable {bare g h : Graph} {n : Node} {id : Uuid}

theorem mem_ids : id ∈ g.ids ↔ (g.node? id).isSome = true := by
  rw [node?_isSome_iff, ids, List.mem_map]

theorem mem_nodes :
    n ∈ g.nodes ↔ n = g.start ∨ n = g.finish ∨ n ∈ g.stories ∨ n ∈ g.subgraphs := by
  simp [nodes]

theorem addNode_eq_ok (hadd : g.addNode n = .ok h) :
    (n.isStory = true ∧ h = { g with stories := g.stories ++ [n] }) ∨
      n.isSubgraph = true ∧ h = { g with subgraphs := g.subgraphs ++ [n] } := by
  unfold addNode at hadd
  cases hkind : n.kind with
  | start | finish => simp [hkind] at hadd
  | story s =>
    rw [hkind] at hadd
    exact .inl ⟨by simp [Node.isStory, hkind], (Except.ok.inj hadd).symm⟩
  | subgraph graph =>
    rw [hkind] at hadd
    exact .inr ⟨by simp [Node.isSubgraph, hkind], (Except.ok.inj hadd).symm⟩

theorem nodes_sublist_of_addNode (hadd : g.addNode n = .ok h) : g.nodes.Sublist h.nodes := by
  rcases addNode_eq_ok hadd with ⟨_, rfl⟩ | ⟨_, rfl⟩
  · exact (((List.sublist_append_left _ _).append (List.Sublist.refl _)).cons_cons _).cons_cons _
  · exact (((List.Sublist.refl _).append (List.sublist_append_left _ _)).cons_cons _).cons_cons _

theorem Sound.addNode (hg : Sound bare g) (hadd : g.addNode n = .ok h) : Sound bare h := by
  have hids : g.ids ⊆ h.ids := ((nodes_sublist_of_addNode hadd).map Node.id).subset
  rcases addNode_eq_ok hadd with ⟨hn, rfl⟩ | ⟨hn, rfl⟩
  · refine ⟨hg.start_id, hg.finish_id, { hg.arranged with stories := ?_ }, hg.wired.mono hids⟩
    simpa [or_imp, forall_and, hn] using hg.arranged.stories
  · refine ⟨hg.start_id, hg.finish_id, { hg.arranged with subgraphs := ?_ }, hg.wired.mono hids⟩
    simpa [or_imp, forall_and, hn] using hg.arranged.subgraphs

theorem Sound.addNodes (hg : Sound bare g) (ns : List Node) : Sound bare (g.addNodes ns).2 := by
  induction ns generalizing g with
  | nil => exact hg
  | cons n rest ih =>
    rw [Graph.addNodes]
    cases hadd : g.addNode n with
    | ok h => exact ih (hg.addNode hadd)
    | error e => exact hg

theorem isTerminal_of_isStory (h : n.isStory = true) : n.isTerminal = false := by
  unfold Node.isStory at h
  unfold Node.isTerminal
  split at h <;> simp_all

theorem isTerminal_of_isSubgraph (h : n.isSubgraph = true) : n.isTerminal = false := by
  unfold Node.isSubgraph at h
  unfold Node.isTerminal
  split at h <;> simp_all

theorem nodes_without (hg : g.Arranged) (p : Node → Bool) (cs : List Connection) :
    (g.without p cs).nodes = g.nodes.filter fun n => n.isTerminal || !p n := by
  have hkept : ∀ ns : List Node, (∀ n ∈ ns, n.isTerminal = false) →
      (ns.filter fun n => !p n) = ns.filter fun n => n.isTerminal || !p n := by
    intro ns hns
    refine List.filter_congr fun n hn => ?_
    rw [hns n hn, Bool.false_or]
  have hstart : g.start.isTerminal = true := by simp [Node.isTerminal, hg.start]
  have hfinish : g.finish.isTerminal = true := by simp [Node.isTerminal, hg.finish]
  simp only [nodes, without, List.filter_cons, List.filter_append, hstart, hfinish, Bool.true_or,
    if_true]
  rw [hkept g.stories fun n hn => isTerminal_of_isStory (hg.stories n hn),
    hkept g.subgraphs fun n hn => isTerminal_of_isSubgraph (hg.subgraphs n hn)]

theorem Sound.without {p : Node → Bool} {cs : List Connection} (hg : Sound bare g)
    (hsub : cs.Sublist g.connections)
    (hfree : ∀ c ∈ cs, ∀ n ∈ g.nodes, n.isTerminal = false → p n = true →
      c.touches n.id = false) : Sound bare (g.without p cs) := by
  have hend : ∀ c ∈ cs, ∀ id ∈ g.ids, c.touches id = true → id ∈ (g.without p cs).ids := by
    intro c hc id hid htouches
    obtain ⟨n, hn, rfl⟩ := List.mem_map.mp hid
    refine List.mem_map_of_mem ?_
    rw [nodes_without hg.arranged, List.mem_filter]
    refine ⟨hn, ?_⟩
    cases hplain : n.isTerminal with
    | true => rfl
    | false =>
      cases hp : p n with
      | false => rfl
      | true => simp [hfree c hc n hn hplain hp] at htouches
  refine ⟨hg.start_id, hg.finish_id,
    ⟨hg.arranged.start, hg.arranged.finish, ?_, ?_⟩, hg.wired.sublist hsub fun c hc => ⟨?_, ?_⟩⟩
  · exact fun n hn => hg.arranged.stories n (List.mem_filter.mp hn).1
  · exact fun n hn => hg.arranged.subgraphs n (List.mem_filter.mp hn).1
  · exact hend c hc _ (hg.wired.joined c (hsub.subset hc)).1 (by simp [Connection.touches])
  · exact hend c hc _ (hg.wired.joined c (hsub.subset hc)).2 (by simp [Connection.touches])

theorem removeNode_eq_some (hremove : g.removeNode id = some (n, h)) :
    n ∈ g.stories ++ g.subgraphs ∧ n.id = id ∧
      h = g.without (fun m => m.id == id) (g.connections.filter fun c => !c.touches id) := by
  obtain ⟨_, hhead, hremoved⟩ := Option.map_eq_some_iff.mp hremove
  obtain ⟨rfl, rfl⟩ := Prod.mk.inj hremoved
  rw [← List.filter_append] at hhead
  obtain ⟨hmem, hid⟩ := List.mem_filter.mp (List.mem_of_mem_head? hhead)
  exact ⟨hmem, eq_of_beq hid, rfl⟩

theorem Sound.removeNode (hg : Sound bare g) (hremove : g.removeNode id = some (n, h)) :
    Sound bare h := by
  obtain ⟨_, _, rfl⟩ := removeNode_eq_some hremove
  refine hg.without List.filter_sublist ?_
  intro c hc m _ _ hm
  have hc := (List.mem_filter.mp hc).2
  rw [eq_of_beq hm]
  simpa using hc

theorem removeWhere_eq (g : Graph) (p : Node → Bool) : (g.removeWhere p).2 =
    g.without p (g.connections.filter fun c =>
      !((g.stories ++ g.subgraphs).filter p).any fun n => c.touches n.id) := by
  rw [List.filter_append]
  rfl

theorem Sound.removeWhere (hg : Sound bare g) (p : Node → Bool) :
    Sound bare (g.removeWhere p).2 := by
  rw [removeWhere_eq]
  refine hg.without List.filter_sublist ?_
  intro c hc n hn hplain hp
  have hmem : n ∈ g.stories ++ g.subgraphs := by
    rcases mem_nodes.mp hn with rfl | rfl | hn | hn
    · simp [Node.isTerminal, hg.arranged.start] at hplain
    · simp [Node.isTerminal, hg.arranged.finish] at hplain
    · exact List.mem_append_left _ hn
    · exact List.mem_append_right _ hn
  have hc := (List.mem_filter.mp hc).2
  rw [Bool.not_eq_true', List.any_eq_false] at hc
  simpa using hc n (List.mem_filter.mpr ⟨hmem, hp⟩)

theorem map_updateFirst {α : Type} {f : Node → Node} {q : Node → α} (hf : ∀ n, q (f n) = q n)
    (ns : List Node) : (updateFirst id f ns).map q = ns.map q := by
  induction ns with
  | nil => rfl
  | cons n rest ih =>
    rw [updateFirst]
    split
    · rw [List.map_cons, hf, List.map_cons]
    · rw [List.map_cons, ih, List.map_cons]

theorem forall_mem_updateFirst {f : Node → Node} {q : Node → Bool} (hf : ∀ n, q (f n) = q n)
    {ns : List Node} (h : ∀ n ∈ ns, q n = true) : ∀ n ∈ updateFirst id f ns, q n = true := by
  have hmap : (updateFirst id f ns).map q = ns.map q := map_updateFirst hf ns
  intro n hn
  obtain ⟨m, hm, hq⟩ := List.mem_map.mp (hmap ▸ List.mem_map_of_mem (f := q) hn)
  rw [← hq]
  exact h m hm

theorem updateFirst_append (f : Node → Node) (ns ms : List Node) :
    updateFirst id f (ns ++ ms) =
      if ns.any (fun n => n.id == id) then updateFirst id f ns ++ ms
      else ns ++ updateFirst id f ms := by
  induction ns with
  | nil => rfl
  | cons n rest ih =>
    by_cases hn : n.id = id
    · simp [updateFirst, hn]
    · simp only [List.cons_append, updateFirst, if_neg hn, ih, List.any_cons,
        beq_eq_false_iff_ne.mpr hn, Bool.false_or]
      split <;> rfl

theorem moveNode_cases {position : Position} (hmove : g.moveNode id position = .ok h) :
    (g.start.id = id ∧ h = { g with start := g.start.moved position }) ∨
      g.start.id ≠ id ∧ (g.finish.id = id ∧ h = { g with finish := g.finish.moved position } ∨
        g.finish.id ≠ id ∧ (g.stories.any (fun n => n.id == id) = true ∧
            h = { g with stories := updateFirst id (Node.moved position) g.stories } ∨
          g.stories.any (fun n => n.id == id) = false ∧
            g.subgraphs.any (fun n => n.id == id) = true ∧
            h = { g with subgraphs := updateFirst id (Node.moved position) g.subgraphs })) := by
  unfold moveNode at hmove
  dsimp only at hmove
  split at hmove
  · exact .inl ⟨‹_›, (Except.ok.inj hmove).symm⟩
  refine .inr ⟨‹_›, ?_⟩
  split at hmove
  · exact .inl ⟨‹_›, (Except.ok.inj hmove).symm⟩
  refine .inr ⟨‹_›, ?_⟩
  split at hmove
  · exact .inl ⟨‹_›, (Except.ok.inj hmove).symm⟩
  refine .inr ⟨Bool.eq_false_iff.mpr ‹_›, ?_⟩
  split at hmove
  · exact ⟨‹_›, (Except.ok.inj hmove).symm⟩
  · simp at hmove

/-- A move changes the first node with the id, wherever it stands. -/
theorem nodes_of_moveNode {position : Position} (hmove : g.moveNode id position = .ok h) :
    h.nodes = updateFirst id (Node.moved position) g.nodes := by
  rcases moveNode_cases hmove with ⟨hid, rfl⟩ | ⟨hstart, ⟨hid, rfl⟩ | ⟨hfinish, hplain⟩⟩
  · rw [nodes, nodes, updateFirst, if_pos hid]
  · rw [nodes, nodes, updateFirst, if_neg hstart, updateFirst, if_pos hid]
  · rw [nodes, nodes, updateFirst, if_neg hstart, updateFirst, if_neg hfinish, updateFirst_append]
    rcases hplain with ⟨hstories, rfl⟩ | ⟨hstories, _, rfl⟩ <;> simp [hstories]

theorem Sound.moveNode {position : Position} (hg : Sound bare g)
    (hmove : g.moveNode id position = .ok h) : Sound bare h := by
  have hids : h.ids = g.ids := by
    rw [ids, nodes_of_moveNode hmove]
    exact map_updateFirst (Node.moved_id position) g.nodes
  rcases moveNode_cases hmove with
    ⟨_, rfl⟩ | ⟨_, ⟨_, rfl⟩ | ⟨_, ⟨_, rfl⟩ | ⟨_, _, rfl⟩⟩⟩
  · exact ⟨hg.start_id, hg.finish_id, { hg.arranged with }, hids ▸ hg.wired⟩
  · exact ⟨hg.start_id, hg.finish_id, { hg.arranged with }, hids ▸ hg.wired⟩
  · refine ⟨hg.start_id, hg.finish_id, { hg.arranged with stories := ?_ }, hids ▸ hg.wired⟩
    exact forall_mem_updateFirst (f := Node.moved position) (fun _ => rfl) hg.arranged.stories
  · refine ⟨hg.start_id, hg.finish_id, { hg.arranged with subgraphs := ?_ }, hids ▸ hg.wired⟩
    exact forall_mem_updateFirst (f := Node.moved position) (fun _ => rfl) hg.arranged.subgraphs

theorem Sound.connections {cs : List Connection} (hg : Sound bare g) (hcs : Wired g.ids cs) :
    Sound bare { g with connections := cs } :=
  ⟨hg.start_id, hg.finish_id, ⟨hg.arranged.start, hg.arranged.finish, hg.arranged.stories,
    hg.arranged.subgraphs⟩, hcs⟩

theorem Sound.sublist {cs : List Connection} (hg : Sound bare g)
    (hsub : cs.Sublist g.connections) : Sound bare { g with connections := cs } :=
  hg.connections (hg.wired.sublist hsub fun c hc => hg.wired.joined c (hsub.subset hc))

/-- The outlet of a connection takes one connection only and has one. -/
def Occupied (g : Graph) (c : Connection) : Prop :=
  c.outlet ≠ defaultOutlet ∧ ∃ d ∈ g.connections, d.source = c.source ∧ d.outlet = c.outlet

/-- What comes of a connection, and when. -/
inductive Connects (g : Graph) (c : Connection) : Except GraphError Bool × Graph → Prop
  | noSource : c.source ∉ g.ids → Connects g c (.error (.unknownNode c.source), g)
  | noTarget : c.source ∈ g.ids → c.target ∉ g.ids →
      Connects g c (.error (.unknownNode c.target), g)
  | present : c.source ∈ g.ids → c.target ∈ g.ids → c ∈ g.connections →
      Connects g c (.ok false, g)
  | occupied : c.source ∈ g.ids → c.target ∈ g.ids → c ∉ g.connections → g.Occupied c →
      Connects g c (.error (.outletOccupied c.source c.outlet), g)
  | added : c.source ∈ g.ids → c.target ∈ g.ids → c ∉ g.connections → ¬g.Occupied c →
      Connects g c (.ok true, { g with connections := g.connections ++ [c] })

theorem not_mem_ids : id ∉ g.ids ↔ (g.node? id).isNone = true := by
  rw [mem_ids, Option.not_isSome_iff_eq_none, Option.isNone_iff_eq_none]

theorem occupied_iff {c : Connection} : g.Occupied c ↔
    (!c.isDefault && (g.leaving c.source).any fun d => d.outlet == c.outlet) = true := by
  simp only [Occupied, Connection.isDefault, leaving, Bool.and_eq_true, Bool.not_eq_true',
    beq_eq_false_iff_ne, List.any_filter, List.any_eq_true, beq_iff_eq]

theorem connects (g : Graph) (c : Connection) : Connects g c (g.tryConnect c) := by
  unfold tryConnect
  split
  · rename_i hsource
    exact .noSource (not_mem_ids.mpr hsource)
  rename_i hsource
  have hsource : c.source ∈ g.ids := by
    apply Decidable.not_not.mp
    rwa [not_mem_ids]
  split
  · rename_i htarget
    exact .noTarget hsource (not_mem_ids.mpr htarget)
  rename_i htarget
  have htarget : c.target ∈ g.ids := by
    apply Decidable.not_not.mp
    rwa [not_mem_ids]
  split
  · exact .present hsource htarget ‹_›
  split
  · exact .occupied hsource htarget ‹_› (occupied_iff.mpr ‹_›)
  · exact .added hsource htarget ‹_› (mt occupied_iff.mp ‹_›)

/-- Of the graph only the connections change. -/
theorem exists_connections_of_tryConnect (g : Graph) (c : Connection) :
    ∃ cs, (g.tryConnect c).2 = { g with connections := cs } := by
  have hconnects := connects g c
  generalize g.tryConnect c = outcome at hconnects
  cases hconnects <;> exact ⟨_, rfl⟩

theorem connect_eq_ok_iff {c : Connection} {added : Bool} :
    g.connect c = .ok (added, h) ↔ g.tryConnect c = (.ok added, h) := by
  unfold connect
  split <;> simp_all

theorem Sound.tryConnect (hg : Sound bare g) (c : Connection) :
    Sound bare (g.tryConnect c).2 := by
  have hconnects := connects g c
  generalize g.tryConnect c = outcome at hconnects
  cases hconnects with
  | noSource | noTarget | present | occupied => exact hg
  | added hsource htarget hnew hfree =>
    refine hg.connections (hg.wired.concat hsource htarget hnew ?_)
    intro hnamed d hd hsame houtlet
    exact hfree ⟨hnamed, d, hd, hsame, houtlet⟩

theorem Sound.edit (hg : Sound bare g) (e : Edit) : Sound bare (g.edit e) := by
  cases e with
  | add n =>
    cases hadd : g.addNode n with
    | ok h =>
      rw [Graph.edit, hadd]
      exact hg.addNode hadd
    | error e =>
      rw [Graph.edit, hadd]
      exact hg
  | addAll ns => exact hg.addNodes ns
  | remove id =>
    cases hremove : g.removeNode id with
    | some removed =>
      rw [Graph.edit, hremove]
      exact hg.removeNode hremove
    | none =>
      rw [Graph.edit, hremove]
      exact hg
  | removeWhere p => exact hg.removeWhere p
  | move id position =>
    cases hmove : g.moveNode id position with
    | ok h =>
      rw [Graph.edit, hmove]
      exact hg.moveNode hmove
    | error e =>
      rw [Graph.edit, hmove]
      exact hg
  | connect c => exact hg.tryConnect c
  | disconnect c => exact hg.sublist List.filter_sublist
  | prune compiler => exact hg.sublist List.filter_sublist

theorem Sound.editAll (hg : Sound bare g) (edits : List Edit) : Sound bare (g.editAll edits) := by
  induction edits generalizing g with
  | nil => exact hg
  | cons e rest ih => exact ih (hg.edit e)

theorem sound_make (id : Option Uuid) (name : String) (supply : IdSupply) :
    Sound (make id name supply).1 (make id name supply).1 := by
  have hbare : ∃ i a b, (make id name supply).1 = Graph.bare i a b name := by
    cases id <;> exact ⟨_, _, _, rfl⟩
  obtain ⟨i, a, b, hbare⟩ := hbare
  rw [hbare]
  exact ⟨rfl, rfl, ⟨rfl, rfl, by simp [Graph.bare], by simp [Graph.bare]⟩, wired_nil _⟩

theorem Sound.declareAll (hg : Sound bare g) (aliases : Blueprint.Aliases)
    (ds : List Declaration) (supply : IdSupply) :
    Sound bare (Blueprint.declareAll g aliases ds supply).1.1 := by
  induction ds generalizing g aliases supply with
  | nil => exact hg
  | cons d rest ih =>
    cases d with
    | story name story position =>
      exact ih (hg.addNode (n := ⟨supply.next.1, position, .story story⟩) rfl) _ _
    | subgraph name graph =>
      exact ih (hg.addNode (n := .ofKind supply.next.1 (.subgraph graph)) rfl) _ _

theorem exists_of_bind_eq_ok {ε α β : Type} {x : Except ε α} {f : α → Except ε β} {b : β}
    (h : x >>= f = .ok b) : ∃ a, x = .ok a ∧ f a = .ok b := by
  cases x with
  | ok a => exact ⟨a, rfl, h⟩
  | error e => cases h

theorem Sound.connectAll {aliases : Blueprint.Aliases} {links : List Link} (hg : Sound bare g)
    (hlinks : Blueprint.connectAll aliases links g = .ok h) : Sound bare h := by
  induction links generalizing g with
  | nil =>
    obtain rfl := Except.ok.inj hlinks
    exact hg
  | cons link rest ih =>
    rw [Blueprint.connectAll] at hlinks
    obtain ⟨source, _, hlinks⟩ := exists_of_bind_eq_ok hlinks
    obtain ⟨target, _, hlinks⟩ := exists_of_bind_eq_ok hlinks
    obtain ⟨⟨added, k⟩, hconnect, hlinks⟩ := exists_of_bind_eq_ok hlinks
    have hk := hg.tryConnect ⟨source, link.outlet, target, defaultOutlet⟩
    rw [connect_eq_ok_iff.mp hconnect] at hk
    exact ih hk hlinks

theorem Created.sound (hg : Created bare g) : Sound bare g := by
  cases hg with
  | bare id name supply => exact sound_make id name supply
  | @built b supply _ hbuild =>
    have hdeclared := (sound_make b.id b.name supply).declareAll
      [("end", (make b.id b.name supply).1.finish.id),
        ("start", (make b.id b.name supply).1.start.id)]
      b.declarations (make b.id b.name supply).2
    exact hdeclared.connectAll hbuild

/-- However a graph was made and then edited, its connections join nodes of it, no two of them are
equal, at most one leaves a node by an outlet other than the default one, and its nodes are the
start and the finish that it was made with, then story nodes, then subgraph nodes. -/
theorem well_kept (hg : Created bare g) (edits : List Edit) :
    (∀ c ∈ (g.editAll edits).connections,
      (∃ n ∈ (g.editAll edits).nodes, n.id = c.source) ∧
        ∃ n ∈ (g.editAll edits).nodes, n.id = c.target) ∧
      (g.editAll edits).connections.Nodup ∧
      (∀ n ∈ (g.editAll edits).nodes, ∀ outlet, outlet ≠ defaultOutlet →
        (((g.editAll edits).leaving n.id).filter fun c => c.outlet == outlet).length ≤ 1) ∧
      ∃ start finish stories subgraphs,
        (g.editAll edits).nodes = start :: finish :: (stories ++ subgraphs) ∧
          start.kind = .start ∧ start.id = bare.start.id ∧
          finish.kind = .finish ∧ finish.id = bare.finish.id ∧
          (∀ n ∈ stories, n.isStory = true) ∧ ∀ n ∈ subgraphs, n.isSubgraph = true := by
  have hsound := hg.sound.editAll edits
  refine ⟨fun c hc => ?_, hsound.wired.distinct, fun n _ outlet hnamed => ?_, ?_⟩
  · obtain ⟨hsource, htarget⟩ := hsound.wired.joined c hc
    exact ⟨List.mem_map.mp hsource, List.mem_map.mp htarget⟩
  · rw [leaving, List.filter_filter, ← List.countP_eq_length_filter]
    simpa only [Bool.and_comm] using hsound.wired.single n.id outlet hnamed
  · have hplaces := hsound.arranged
    exact ⟨_, _, _, _, rfl, hplaces.start, hsound.start_id, hplaces.finish, hsound.finish_id,
      hplaces.stories, hplaces.subgraphs⟩

end

def crossroads : Blueprint where
  name := "crossroads"
  id := none
  declarations := [.story "gate" ⟨⟨"gate", ">> left"⟩, []⟩ .origin, .subgraph "left" (.ofNat 9)]
  links := [⟨"start", defaultOutlet, "gate"⟩, ⟨"gate", "left", "left"⟩,
    ⟨"left", defaultOutlet, "end"⟩]

/-- The second connection from the gate to the left is refused, the nodes are added up to the
second start, no node has the id to move, and the gate goes with its two connections. -/
theorem well_kept_crossroads :
    let edits := [.connect ⟨.ofNat 4, "left", .ofNat 3, defaultOutlet⟩,
      .addAll [.ofKind (.ofNat 7) (.subgraph (.ofNat 9)), .ofKind (.ofNat 8) .start,
        .ofKind (.ofNat 9) (.subgraph (.ofNat 9))],
      .move (.ofNat 9) .origin, .remove (.ofNat 4)]
    ∃ bare g, Created bare g ∧ g.ids = [.ofNat 2, .ofNat 3, .ofNat 4, .ofNat 5] ∧
      g.connections.length = 3 ∧
      (g.editAll edits).ids = [.ofNat 2, .ofNat 3, .ofNat 5, .ofNat 7] ∧
      (g.editAll edits).connections = [⟨.ofNat 5, defaultOutlet, .ofNat 3, defaultOutlet⟩] ∧
      ∀ c ∈ (g.editAll edits).connections, ∃ n ∈ (g.editAll edits).nodes, n.id = c.source := by
  intro edits
  have hbuild : (crossroads.build (.startingAt 1)).1 = .ok _ := rfl
  have hcreated := Created.built hbuild
  have h := well_kept hcreated edits
  exact ⟨_, _, hcreated, by decide, by decide, by decide, by decide, fun c hc => (h.1 c hc).1⟩

end Graph

end Fabula
