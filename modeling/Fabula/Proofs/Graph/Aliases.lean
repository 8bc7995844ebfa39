import Mathlib.Data.List.Induction
import Mathlib.Data.List.Nodup
import Fabula.Proofs.Graph.Drawing

/-!
# Names in blueprints

A host writes a graph by calls that declare nodes under names and link names, in any order: the
links wait until every node is there. The first two names, `start` and `end`, are the terminals'.
A name that is given again stands for the newer node from then on, also in the links that were
written before, and the older node has no name left.
-/

namespace Fabula

def Declaration.name : Declaration → String
  | .story name _ _ => name
  | .subgraph name _ => name

namespace Blueprint

open IdSupply (Drawing DrawsOnce)

inductive Call where
  | declare (d : Declaration)
  | link (l : Link)

def Call.declaration? : Call → Option Declaration
  | declare d => some d
  | link _ => none

def Call.link? : Call → Option Link
  | declare _ => none
  | link l => some l

/-- A graph that is being written. -/
structure Draft where
  graph : Graph
  aliases : Aliases
  links : List Link

def Draft.call (draft : Draft) : Call → Drawing Draft
  | .declare d => do
    let (graph, aliases) ← declare draft.graph draft.aliases d
    return { draft with graph, aliases }
  | .link l => return { draft with links := draft.links ++ [l] }

def Draft.callAll (draft : Draft) : List Call → Drawing Draft
  | [] => return draft
  | call :: rest => do (← draft.call call).callAll rest

/-- The graph that is written by calls. -/
def write (name : String) (id : Option Uuid) (calls : List Call) :
    Drawing (Except GraphError Graph) := do
  let bare ← Graph.make id name
  let blank : Draft := ⟨bare, [("end", bare.finish.id), ("start", bare.start.id)], []⟩
  let draft ← blank.callAll calls
  return connectAll draft.aliases draft.links draft.graph

def ofCalls (name : String) (id : Option Uuid) (calls : List Call) : Blueprint where
  name := name
  id := id
  declarations := calls.filterMap Call.declaration?
  links := calls.filterMap Call.link?

theorem callAll_eq (draft : Draft) (calls : List Call) : draft.callAll calls = do
    let (graph, aliases) ←
      declareAll draft.graph draft.aliases (calls.filterMap Call.declaration?)
    return ⟨graph, aliases, draft.links ++ calls.filterMap Call.link?⟩ := by
  induction calls generalizing draft with
  | nil => simp [Draft.callAll, declareAll]
  | cons call rest ih =>
    cases call with
    | declare d =>
      simp [Draft.callAll, Draft.call, List.filterMap_cons, Call.declaration?, Call.link?,
        declareAll, ih]
    | link l =>
      simp [Draft.callAll, Draft.call, List.filterMap_cons, Call.declaration?, Call.link?, ih]

/-- It does not matter where the links stand among the declarations. -/
theorem write_eq_build (name : String) (id : Option Uuid) (calls : List Call) :
    write name id calls = (ofCalls name id calls).build := by
  simp [write, build, ofCalls, callAll_eq]

/-- The nodes of declarations under their names. The story nodes and the subgraph nodes of a graph
stand in two lists, each in the order of the declarations. -/
def declaredNodes : List Declaration → List Node → List Node → List (String × Node)
  | .story name _ _ :: ds, n :: stories, subgraphs =>
    (name, n) :: declaredNodes ds stories subgraphs
  | .subgraph name _ :: ds, stories, n :: subgraphs =>
    (name, n) :: declaredNodes ds stories subgraphs
  | _, _, _ => []

/-- The names that are given, the terminals' first. -/
def names (b : Blueprint) : List String := "start" :: "end" :: b.declarations.map Declaration.name

/-- The nodes of a graph under the names that its blueprint gives them, in the order of giving. -/
def named (b : Blueprint) (g : Graph) : List (String × Node) :=
  ("start", g.start) :: ("end", g.finish) :: declaredNodes b.declarations g.stories g.subgraphs

/-- The node to which a name was given last. -/
def Newest (entries : List (String × Node)) (name : String) (n : Node) : Prop :=
  ∃ before after, entries = before ++ (name, n) :: after ∧ name ∉ after.map Prod.fst

/-- The connection of a link, between the newest nodes of its two names. -/
def JoinsNewest (entries : List (String × Node)) (link : Link) (c : Connection) : Prop :=
  ∃ m n, Newest entries link.source m ∧ Newest entries link.target n ∧
    c = ⟨m.id, link.outlet, n.id, defaultOutlet⟩

/-- The two names of a link are names of one node each, and the connection is between these. -/
def Unambiguous (b : Blueprint) (g : Graph) : Prop :=
  ∀ link ∈ b.links, ∃ m n,
    (∀ k, (link.source, k) ∈ b.named g ↔ k = m) ∧ (∀ k, (link.target, k) ∈ b.named g ↔ k = n) ∧
    ⟨m.id, link.outlet, n.id, defaultOutlet⟩ ∈ g.connections

section
variable {entries : List (String × Node)} {name : String} {m n : Node}

theorem Newest.mem (h : Newest entries name n) : (name, n) ∈ entries := by
  obtain ⟨before, after, rfl, _⟩ := h
  simp

theorem count_eq_one_iff {before after : List (String × Node)} :
    ((before ++ (name, n) :: after).map Prod.fst).count name = 1 ↔
      name ∉ before.map Prod.fst ∧ name ∉ after.map Prod.fst := by
  rw [List.map_append, List.map_cons, List.count_append, List.count_cons_self,
    ← List.count_eq_zero, ← List.count_eq_zero]
  omega

/-- A name that was given once is the name of one node. -/
theorem mem_iff_of_count (hone : (entries.map Prod.fst).count name = 1)
    (hn : (name, n) ∈ entries) (k : Node) : (name, k) ∈ entries ↔ k = n := by
  obtain ⟨before, after, rfl⟩ := List.append_of_mem hn
  obtain ⟨hbefore, hafter⟩ := count_eq_one_iff.mp hone
  constructor
  · intro hk
    rcases List.mem_append.mp hk with hk | hk
    · exact absurd (List.mem_map_of_mem (f := Prod.fst) hk) hbefore
    rcases List.mem_cons.mp hk with hk | hk
    · exact (Prod.mk.inj hk).2
    · exact absurd (List.mem_map_of_mem (f := Prod.fst) hk) hafter
  · intro hk
    rw [hk]
    exact hn

/-- When the nodes are different, a name of one node was given once. -/
theorem count_of_mem_iff (hids : (entries.map fun p => p.2.id).Nodup)
    (hn : ∀ k, (name, k) ∈ entries ↔ k = n) : (entries.map Prod.fst).count name = 1 := by
  obtain ⟨before, after, hentries⟩ := List.append_of_mem ((hn n).mpr rfl)
  rw [hentries, List.map_append, List.map_cons, List.nodup_middle, List.nodup_cons] at hids
  have hnot : ∀ p ∈ before ++ after, p.1 ≠ name := by
    intro p hp hname
    obtain ⟨_, k⟩ := p
    obtain rfl : _ = name := hname
    have hk : k = n := by
      apply (hn k).mp
      rw [hentries]
      rcases List.mem_append.mp hp with hp | hp
      · exact List.mem_append_left _ hp
      · exact List.mem_append_right _ (List.mem_cons_of_mem _ hp)
    apply hids.1
    rw [← List.map_append, ← hk]
    exact List.mem_map_of_mem (f := fun p : String × Node => p.2.id) hp
  rw [hentries]
  apply count_eq_one_iff.mpr
  constructor
  · intro hmem
    obtain ⟨p, hp, hname⟩ := List.mem_map.mp hmem
    exact hnot p (List.mem_append_left _ hp) hname
  · intro hmem
    obtain ⟨p, hp, hname⟩ := List.mem_map.mp hmem
    exact hnot p (List.mem_append_right _ hp) hname

/-- What the names stand for when they were given in the order of the entries. -/
def aliasesOf (entries : List (String × Node)) : Aliases :=
  (entries.map fun p => (p.1, p.2.id)).reverse

theorem aliasesOf_cons (p : String × Node) (entries : List (String × Node)) :
    aliasesOf (p :: entries) = aliasesOf entries ++ [(p.1, p.2.id)] := by
  rw [aliasesOf, List.map_cons, List.reverse_cons, aliasesOf]

theorem aliasesOf_concat (entries : List (String × Node)) (p : String × Node) :
    aliasesOf (entries ++ [p]) = (p.1, p.2.id) :: aliasesOf entries := by
  rw [aliasesOf, List.map_append, List.reverse_append, aliasesOf]
  rfl

-- By induction from the end of the entries: what is given last hides what was given before.
theorem newest_of_lookup {id : Uuid} (h : (aliasesOf entries).lookup name = some id) :
    ∃ n, Newest entries name n ∧ n.id = id := by
  induction entries using List.reverseRecOn with
  | nil => cases h
  | append_singleton front p ih =>
    rw [aliasesOf_concat, List.lookup_cons] at h
    by_cases hname : name = p.1
    · rw [hname, beq_self_eq_true] at h
      refine ⟨p.2, ⟨front, [], ?_, ?_⟩, Option.some.inj h⟩
      · rw [hname]
      · simp
    · rw [beq_eq_false_iff_ne.mpr hname] at h
      obtain ⟨n, ⟨before, after, rfl, hafter⟩, hid⟩ := ih h
      refine ⟨n, ⟨before, after ++ [p], ?_, ?_⟩, hid⟩
      · simp
      · simp only [List.map_append, List.mem_append, not_or]
        exact ⟨hafter, by simpa using hname⟩

theorem newest_of_resolve {id : Uuid} (h : resolve (aliasesOf entries) name = .ok id) :
    ∃ n, Newest entries name n ∧ n.id = id := by
  apply newest_of_lookup
  unfold resolve at h
  split at h
  · rename_i hlookup
    rw [hlookup, Except.ok.inj h]
  · cases h

end

/-- The connection of a link under the aliases as they are. -/
structure Resolves (aliases : Aliases) (link : Link) (c : Connection) : Prop where
  source : resolve aliases link.source = .ok c.source
  outlet : c.outlet = link.outlet
  target : resolve aliases link.target = .ok c.target
  inlet : c.inlet = defaultOutlet

theorem Resolves.joinsNewest {entries : List (String × Node)} {link : Link} {c : Connection}
    (h : Resolves (aliasesOf entries) link c) : JoinsNewest entries link c := by
  obtain ⟨m, hm, hsource⟩ := newest_of_resolve h.source
  obtain ⟨n, hn, htarget⟩ := newest_of_resolve h.target
  refine ⟨m, n, hm, hn, ?_⟩
  rw [hsource, htarget, ← h.outlet, ← h.inlet]

/-- The connections that links leave behind: those that were there, and one for each link. -/
structure Drawn (aliases : Aliases) (links : List Link) (g h : Graph) : Prop where
  keeps : g.connections ⊆ h.connections
  draws : ∀ link ∈ links, ∃ c ∈ h.connections, Resolves aliases link c
  only : ∀ c ∈ h.connections, c ∈ g.connections ∨ ∃ link ∈ links, Resolves aliases link c

theorem drawn_of_connectAll {aliases : Aliases} {links : List Link} {g h : Graph}
    (hlinks : connectAll aliases links g = .ok h) : Drawn aliases links g h := by
  induction links generalizing g with
  | nil =>
    obtain rfl := Except.ok.inj hlinks
    exact ⟨fun _ hc => hc, by simp, fun _ hc => .inl hc⟩
  | cons link rest ih =>
    rw [connectAll] at hlinks
    obtain ⟨source, hsource, hlinks⟩ := Graph.exists_of_bind_eq_ok hlinks
    obtain ⟨target, htarget, hlinks⟩ := Graph.exists_of_bind_eq_ok hlinks
    obtain ⟨⟨added, k⟩, hconnect, hlinks⟩ := Graph.exists_of_bind_eq_ok hlinks
    have hmem := Graph.mem_of_connect_eq_ok hconnect
    have hresolves : Resolves aliases link ⟨source, link.outlet, target, defaultOutlet⟩ :=
      ⟨hsource, rfl, htarget, rfl⟩
    have hrest := ih hlinks
    refine ⟨?_, ?_, ?_⟩
    · intro c hc
      exact hrest.keeps ((hmem c).mpr (.inl hc))
    · intro other hother
      rcases List.mem_cons.mp hother with rfl | hother
      · exact ⟨_, hrest.keeps ((hmem _).mpr (.inr rfl)), hresolves⟩
      · exact hrest.draws other hother
    · intro c hc
      rcases hrest.only c hc with hc | ⟨other, hother, hc⟩
      · rcases (hmem c).mp hc with hc | rfl
        · exact .inl hc
        · exact .inr ⟨link, List.mem_cons_self, hresolves⟩
      · exact .inr ⟨other, List.mem_cons_of_mem link hother, hc⟩

/-- Nodes that were made for declarations: one for each, with the next id. -/
structure Makes (ds : List Declaration) (s : IdSupply) (stories subgraphs : List Node) : Prop where
  names : (declaredNodes ds stories subgraphs).map Prod.fst = ds.map Declaration.name
  ids : (declaredNodes ds stories subgraphs).map (fun p => p.2.id) =
    (List.range' s.taken ds.length).map s.stream
  nodes : ((declaredNodes ds stories subgraphs).map Prod.snd).Perm (stories ++ subgraphs)

theorem makes_of_declareAll (g : Graph) (aliases : Aliases) (ds : List Declaration)
    (s : IdSupply) : ∃ stories subgraphs, Makes ds s stories subgraphs ∧
      declareAll g aliases ds s =
        (({ g with stories := g.stories ++ stories, subgraphs := g.subgraphs ++ subgraphs },
          aliasesOf (declaredNodes ds stories subgraphs) ++ aliases),
          { s with taken := s.taken + ds.length }) := by
  induction ds generalizing g aliases s with
  | nil =>
    refine ⟨[], [], ⟨rfl, rfl, List.Perm.refl _⟩, ?_⟩
    rw [List.append_nil, List.append_nil]
    rfl
  | cons d rest ih =>
    cases d with
    | story name story position =>
      let n : Node := ⟨s.next.1, position, .story story⟩
      obtain ⟨stories, subgraphs, hmakes, hrest⟩ :=
        ih { g with stories := g.stories ++ [n] } ((name, n.id) :: aliases) s.next.2
      refine ⟨n :: stories, subgraphs, ⟨?_, ?_, ?_⟩, ?_⟩
      · exact congrArg (name :: ·) hmakes.names
      · exact congrArg (n.id :: ·) hmakes.ids
      · exact hmakes.nodes.cons n
      · refine hrest.trans ?_
        simp [declaredNodes, aliasesOf_cons, IdSupply.next, Nat.add_comm, Nat.add_left_comm]
    | subgraph name called =>
      let n : Node := .ofKind s.next.1 (.subgraph called)
      obtain ⟨stories, subgraphs, hmakes, hrest⟩ :=
        ih { g with subgraphs := g.subgraphs ++ [n] } ((name, n.id) :: aliases) s.next.2
      refine ⟨stories, n :: subgraphs, ⟨?_, ?_, ?_⟩, ?_⟩
      · exact congrArg (name :: ·) hmakes.names
      · exact congrArg (n.id :: ·) hmakes.ids
      · exact (hmakes.nodes.cons n).trans List.perm_middle.symm
      · refine hrest.trans ?_
        simp [declaredNodes, aliasesOf_cons, IdSupply.next, Nat.add_comm, Nat.add_left_comm]

/-- A built graph: its nodes are the named ones, each with its own draw, and its connections are
what the links leave when the names were given in order. -/
structure Registered (b : Blueprint) (g : Graph) (s t : IdSupply) : Prop where
  names : (b.named g).map Prod.fst = b.names
  nodes : ((b.named g).map Prod.snd).Perm g.nodes
  ids : ∃ first, s.taken ≤ first ∧ first + b.names.length = t.taken ∧
    (b.named g).map (fun p => p.2.id) = (List.range' first b.names.length).map s.stream
  links : ∃ bare : Graph, bare.connections = [] ∧ Drawn (aliasesOf (b.named g)) b.links bare g

theorem exists_bare_of_make (id : Option Uuid) (name : String) (s : IdSupply) :
    ∃ key first, s.taken ≤ first ∧ Graph.make id name s =
      (.bare key (s.stream first) (s.stream (first + 1)) name, { s with taken := first + 2 }) := by
  cases id with
  | some id => exact ⟨id, s.taken, Nat.le_refl _, rfl⟩
  | none => exact ⟨s.stream s.taken, s.taken + 1, Nat.le_succ _, rfl⟩

theorem registered_of_build {b : Blueprint} {g : Graph} {s t : IdSupply}
    (h : b.build s = (.ok g, t)) : Registered b g s t := by
  obtain ⟨key, first, hfirst, hmake⟩ := exists_bare_of_make b.id b.name s
  let bare : Graph := .bare key (s.stream first) (s.stream (first + 1)) b.name
  obtain ⟨stories, subgraphs, hmakes, hdeclare⟩ := makes_of_declareAll bare
    [("end", bare.finish.id), ("start", bare.start.id)] b.declarations { s with taken := first + 2 }
  have hbuild : b.build s = (connectAll
      (aliasesOf (("start", bare.start) :: ("end", bare.finish) ::
        declaredNodes b.declarations stories subgraphs)) b.links
      { bare with stories, subgraphs },
      { s with taken := first + 2 + b.declarations.length }) := by
    simp only [build, bind, StateT.bind, hmake]
    rw [aliasesOf_cons, aliasesOf_cons, List.append_assoc]
    exact congrArg (fun p => (connectAll p.1.2 b.links p.1.1, p.2)) hdeclare
  rw [hbuild] at h
  obtain ⟨hconnect, rfl⟩ := Prod.mk.inj h
  have hdrawn := drawn_of_connectAll hconnect
  obtain ⟨cs, rfl⟩ := connectAll_eq_ok hconnect
  have hlength : b.names.length = b.declarations.length + 2 := by simp [names]
  refine ⟨?_, ?_, ⟨first, hfirst, ?_, ?_⟩, ⟨_, rfl, hdrawn⟩⟩
  · exact congrArg ("start" :: "end" :: ·) hmakes.names
  · exact (hmakes.nodes.cons bare.finish).cons bare.start
  · change first + b.names.length = first + 2 + b.declarations.length
    omega
  · rw [hlength, List.range'_succ, List.range'_succ]
    exact congrArg (s.stream first :: s.stream (first + 1) :: ·) hmakes.ids

theorem Registered.nodup {b : Blueprint} {g : Graph} {s t : IdSupply} (h : Registered b g s t)
    (honce : DrawsOnce s t) : ((b.named g).map fun p => p.2.id).Nodup := by
  obtain ⟨first, hfirst, hlast, hids⟩ := h.ids
  rw [hids]
  exact honce.nodup hfirst (Nat.le_of_eq hlast)

/-- What holds of the names in a blueprint of which a graph was built. -/
structure Follows (b : Blueprint) (g : Graph) : Prop where
  /-- The nodes are those of the names, each once. -/
  nodes : ((b.named g).map Prod.snd).Perm g.nodes
  names : (b.named g).map Prod.fst = b.names
  drawn : ∀ link ∈ b.links, ∃ c ∈ g.connections, JoinsNewest (b.named g) link c
  written : ∀ c ∈ g.connections, ∃ link ∈ b.links, JoinsNewest (b.named g) link c
  /-- A node that lost its name to another is cut off. -/
  cutOff : ∀ name n, (name, n) ∈ b.named g → ¬Newest (b.named g) name n →
    ∀ c ∈ g.connections, c.touches n.id = false
  unambiguous_iff : b.Unambiguous g ↔
    ∀ link ∈ b.links, b.names.count link.source = 1 ∧ b.names.count link.target = 1

section
variable {b : Blueprint} {g : Graph} {s t : IdSupply}

/-- An end of a connection is the newest node of a name of its link. -/
theorem newest_of_touches {entries : List (String × Node)} {link : Link} {c : Connection}
    {name : String} {n : Node} (hids : (entries.map fun p => p.2.id).Nodup)
    (hc : JoinsNewest entries link c) (hn : (name, n) ∈ entries) (htouches : c.touches n.id = true) :
    Newest entries name n := by
  obtain ⟨m, k, hm, hk, rfl⟩ := hc
  simp only [Connection.touches, Bool.or_eq_true, beq_iff_eq] at htouches
  rcases htouches with hid | hid
  · obtain ⟨rfl, rfl⟩ := Prod.mk.inj (List.inj_on_of_nodup_map hids hm.mem hn hid)
    exact hm
  · obtain ⟨rfl, rfl⟩ := Prod.mk.inj (List.inj_on_of_nodup_map hids hk.mem hn hid)
    exact hk

theorem follows_of_build (h : b.build s = (.ok g, t)) (honce : DrawsOnce s t) : Follows b g := by
  have hreg := registered_of_build h
  have hids := hreg.nodup honce
  obtain ⟨bare, hbare, hdrawn⟩ := hreg.links
  have hdraws : ∀ link ∈ b.links, ∃ c ∈ g.connections, JoinsNewest (b.named g) link c := by
    intro link hlink
    obtain ⟨c, hc, hresolves⟩ := hdrawn.draws link hlink
    exact ⟨c, hc, hresolves.joinsNewest⟩
  have hwritten : ∀ c ∈ g.connections, ∃ link ∈ b.links, JoinsNewest (b.named g) link c := by
    intro c hc
    rcases hdrawn.only c hc with hold | ⟨link, hlink, hresolves⟩
    · rw [hbare] at hold
      cases hold
    · exact ⟨link, hlink, hresolves.joinsNewest⟩
  refine ⟨hreg.nodes, hreg.names, hdraws, hwritten, ?_, ?_⟩
  · intro name n hn hold c hc
    obtain ⟨link, _, hjoins⟩ := hwritten c hc
    apply Bool.eq_false_iff.mpr
    intro htouches
    exact hold (newest_of_touches hids hjoins hn htouches)
  · rw [← hreg.names]
    constructor
    · intro hclear link hlink
      obtain ⟨m, n, hm, hn, _⟩ := hclear link hlink
      exact ⟨count_of_mem_iff hids hm, count_of_mem_iff hids hn⟩
    · intro hcounts link hlink
      obtain ⟨hsource, htarget⟩ := hcounts link hlink
      obtain ⟨c, hc, m, n, hm, hn, rfl⟩ := hdraws link hlink
      exact ⟨m, n, mem_iff_of_count hsource hm.mem, mem_iff_of_count htarget hn.mem, hc⟩

end

end Blueprint

end Fabula
