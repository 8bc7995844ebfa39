import Mathlib.Logic.Relation
import Fabula.Proofs.Chain.Visits
import Fabula.Proofs.Graph.Routes

/-!
# What a visit builds

A visit from a node adds chain nodes of graph nodes to which control passes from there, each of
them once and with its branches where the routes lead. So flattening a graph builds exactly what
control passes to from the entry of the graph, and it fails only for a node among these.
-/

namespace Fabula.Chain

open Relation (ReflTransGen)
open Script (Compiler)

section
variable (compiler : Compiler) (g : Graph)

/-- The chain node is what the graph node of its id becomes. -/
def Made (n : ChainNode) : Prop :=
  ∃ d, g.node? n.node = some d ∧ kindOf compiler d = .ok (some n.kind)

/-- A place in the chain of a graph is that of a node. -/
def Stands (places : List Uuid) (id : Uuid) (t : Target) : Prop :=
  t.graph = g.id ∧ places[t.index]? = some id

/-- A node's branches lead where the routes of its graph node lead; a finish has none. -/
structure Linked (places : List Uuid) (n : ChainNode) : Prop where
  finish : n.kind = .finish → n.branches = []
  branch : n.kind ≠ .finish → ∀ outlet,
    Option.Rel (Stands g places) (g.next? n.node outlet) (n.branch? outlet)
  nodup : (n.branches.map Prod.fst).Nodup

/-- What a visit of a node adds to the nodes that were there. -/
structure Adds (id : Uuid) (nodes fresh : List ChainNode) : Prop where
  nodup : (ids (nodes ++ fresh)).Nodup
  made : ∀ n ∈ fresh, Made compiler g n
  linked : ∀ n ∈ fresh, Linked g (ids (nodes ++ fresh)) n
  reached : ∀ n ∈ fresh, ReflTransGen g.Passes id n.node

/-- A node to which control passes fails to compile. -/
def Fails (id : Uuid) (e : ChainError) : Prop :=
  g.receives id = true ∧ ∃ other d, ReflTransGen g.Passes id other ∧
    g.node? other = some d ∧ kindOf compiler d = .error e

/-- What the answer of a visit says. -/
def Means (id : Uuid) (nodes : List ChainNode) : Visit → Prop
  | .ok (none, more) => more = nodes ∧ g.receives id = false
  | .ok (some index, more) => g.receives id = true ∧ (ids more)[index]? = some id ∧
      (id ∉ ids nodes → index = nodes.length) ∧
      ∃ fresh, more = nodes ++ fresh ∧ Adds compiler g id nodes fresh
  | .error e => Fails compiler g id e

/-- The nodes among which a visit adds others. -/
structure Places (places : List Uuid) : Prop where
  nodup : places.Nodup
  receives : ∀ id ∈ places, g.receives id = true

end

section
variable {compiler : Compiler} {g : Graph}

theorem kindOf_eq_finish_iff {d : Node} :
    kindOf compiler d = .ok (some .finish) ↔ d.kind = .finish := by
  unfold kindOf
  split <;> simp_all
  split <;> simp

theorem kindOf_eq_none_iff {d : Node} : kindOf compiler d = .ok none ↔ d.kind = .start := by
  unfold kindOf
  split <;> simp_all
  split <;> simp

theorem kindOf_eq_subgraph_iff {d : Node} {called : Uuid} :
    kindOf compiler d = .ok (some (.subgraph called)) ↔ d.kind = .subgraph called := by
  unfold kindOf
  split <;> simp_all
  split <;> simp

theorem kindOf_eq_story_iff {d : Node} {source : ScriptSource} {script : Script}
    {names : List String} :
    kindOf compiler d = .ok (some (.story source script names)) ↔
      d.kind = .story ⟨source, names⟩ ∧ compiler.compile source.name source.text = .ok script := by
  constructor
  · intro h
    unfold kindOf at h
    split at h
    · simp at h
    · simp at h
    · simp at h
    · rename_i hkind
      split at h
      · rename_i hcompile
        obtain ⟨rfl, rfl, rfl⟩ := ChainNode.Kind.story.inj (Option.some.inj (Except.ok.inj h))
        exact ⟨hkind, hcompile⟩
      · simp at h
  · rintro ⟨hkind, hcompile⟩
    simp only [kindOf, hkind, hcompile]

theorem compile_of_kindOf_story {d : Node} {source : ScriptSource} {script : Script}
    {names : List String} (h : kindOf compiler d = .ok (some (.story source script names))) :
    compiler.compile source.name source.text = .ok script :=
  (kindOf_eq_story_iff.mp h).2

theorem receives_of_kindOf {id : Uuid} {d : Node} (hnode : g.node? id = some d)
    (hkind : kindOf compiler d ≠ .ok none) : g.receives id = true :=
  Graph.receives_iff.mpr ⟨d, hnode, fun h => hkind (kindOf_eq_none_iff.mpr h)⟩

theorem Made.receives {n : ChainNode} (h : Made compiler g n) : g.receives n.node = true := by
  obtain ⟨d, hnode, hkind⟩ := h
  exact receives_of_kindOf hnode (by rw [hkind]; simp)

theorem Stands.append {places : List Uuid} {id : Uuid} {t : Target}
    (h : Stands g places id t) (more : List Uuid) : Stands g (places ++ more) id t :=
  ⟨h.1, Script.getElem?_append_of_eq_some h.2⟩

theorem rel_append {places : List Uuid} {next : Option Uuid} {target : Option Target}
    (h : Option.Rel (Stands g places) next target) (more : List Uuid) :
    Option.Rel (Stands g (places ++ more)) next target := by
  cases h with
  | none => exact .none
  | some h => exact .some (h.append more)

theorem Linked.append {places : List Uuid} {n : ChainNode} (h : Linked g places n)
    (more : List Uuid) : Linked g (places ++ more) n where
  finish := h.finish
  branch := fun hopen outlet => rel_append (h.branch hopen outlet) more
  nodup := h.nodup

theorem Adds.nil {id : Uuid} {nodes : List ChainNode} (h : (ids nodes).Nodup) :
    Adds compiler g id nodes [] where
  nodup := by simpa using h
  made := by simp
  linked := by simp
  reached := by simp

theorem rel_or {α β : Type} {r : α → β → Prop} {a c : Option α} {b d : Option β}
    (hab : Option.Rel r a b) (hcd : Option.Rel r c d) : Option.Rel r (a.or c) (b.or d) := by
  cases hab with
  | none => exact hcd
  | some h => exact .some h

theorem isSome_of_rel {α β : Type} {r : α → β → Prop} {a : Option α} {b : Option β}
    (h : Option.Rel r a b) : a.isSome = b.isSome := by
  cases h <;> rfl

theorem branch?_addBranch (n : ChainNode) (outlet other : String) (t : Target) :
    (addBranch outlet t n).branch? other =
      (n.branch? other).or (if outlet = other then some t else none) := by
  simp only [ChainNode.branch?, addBranch, List.lookup_append, List.lookup_cons, List.lookup_nil]
  by_cases h : outlet = other
  · simp [h]
  · have hne : (other == outlet) = false := by simpa using Ne.symm h
    simp [h, hne]

theorem hasBranch_eq (before after : List ChainNode) (n : ChainNode) (outlet : String) :
    hasBranch (before ++ n :: after) before.length outlet = (n.branch? outlet).isSome := by
  simp [hasBranch]

/-- The node whose connections are followed, among the nodes built so far. -/
structure Pending (compiler : Compiler) (g : Graph) (followed rest : List Connection)
    (before : List ChainNode) (n : ChainNode) (after : List ChainNode) : Prop where
  places : Places g (ids (before ++ n :: after))
  made : Made compiler g n
  opened : n.kind ≠ .finish
  split : g.leaving n.node = followed ++ rest
  branch : ∀ outlet, Option.Rel (Stands g (ids (before ++ n :: after)))
    (g.route? followed outlet) (n.branch? outlet)
  nodup : (n.branches.map Prod.fst).Nodup

namespace Pending
variable {followed rest : List Connection} {c : Connection} {before after : List ChainNode}
  {n : ChainNode}

theorem hasBranch (h : Pending compiler g followed (c :: rest) before n after) :
    hasBranch (before ++ n :: after) before.length c.outlet =
      (g.route? followed c.outlet).isSome := by
  rw [hasBranch_eq, isSome_of_rel (h.branch c.outlet)]

theorem passes (h : Pending compiler g followed (c :: rest) before n after)
    (hfree : Chain.hasBranch (before ++ n :: after) before.length c.outlet = false)
    (hreceives : g.receives c.target = true) : g.Passes n.node c.target := by
  rw [h.hasBranch] at hfree
  refine ⟨?_, c.outlet, Graph.next?_of_first h.split hfree hreceives⟩
  obtain ⟨d, hnode, hkind⟩ := h.made
  refine ⟨d, hnode, fun hfinish => h.opened ?_⟩
  rw [kindOf_eq_finish_iff.mpr hfinish] at hkind
  exact (Option.some.inj (Except.ok.inj hkind)).symm

/-- A connection that does not count is passed over. -/
theorem skip (h : Pending compiler g followed (c :: rest) before n after)
    (hsame : ∀ outlet, g.route? (followed ++ [c]) outlet = g.route? followed outlet) :
    Pending compiler g (followed ++ [c]) rest before n after where
  places := h.places
  made := h.made
  opened := h.opened
  split := h.split.trans (List.append_cons followed c rest)
  branch := fun outlet => by
    rw [hsame]
    exact h.branch outlet
  nodup := h.nodup

/-- A connection that counts gives the node a branch, after the visit of its target. -/
theorem lead {target : Nat} {fresh : List ChainNode}
    (h : Pending compiler g followed (c :: rest) before n after)
    (hfree : Chain.hasBranch (before ++ n :: after) before.length c.outlet = false)
    (hreceives : g.receives c.target = true)
    (htarget : (ids (before ++ n :: after ++ fresh))[target]? = some c.target)
    (hadds : Adds compiler g c.target (before ++ n :: after) fresh) :
    Pending compiler g (followed ++ [c]) rest before (addBranch c.outlet ⟨g.id, target⟩ n)
      (after ++ fresh) := by
  have hids : ids (before ++ addBranch c.outlet ⟨g.id, target⟩ n :: (after ++ fresh)) =
      ids (before ++ n :: after ++ fresh) := by simp [addBranch]
  have hnone : n.branch? c.outlet = none := by
    rw [hasBranch_eq] at hfree
    exact Option.isNone_iff_eq_none.mp (by simpa using hfree)
  constructor
  · rw [hids]
    refine ⟨hadds.nodup, fun id hid => ?_⟩
    rw [ids_append, List.mem_append] at hid
    rcases hid with hold | hnew
    · exact h.places.receives id hold
    · obtain ⟨m, hm, rfl⟩ := List.mem_map.mp hnew
      exact (hadds.made m hm).receives
  · exact h.made
  · exact h.opened
  · exact h.split.trans (List.append_cons followed c rest)
  · intro outlet
    rw [hids, ids_append, Graph.route?_concat, branch?_addBranch]
    apply rel_or (rel_append (h.branch outlet) _)
    rw [ids_append] at htarget
    by_cases hout : c.outlet = outlet
    · simp only [hout, hreceives, and_self, if_true]
      exact .some ⟨rfl, htarget⟩
    · simp only [hout, false_and, if_false]
      exact .none
  · have hkeys : ((addBranch c.outlet ⟨g.id, target⟩ n).branches.map Prod.fst) =
        n.branches.map Prod.fst ++ [c.outlet] := List.map_append
    rw [hkeys, List.nodup_append]
    refine ⟨h.nodup, by simp, ?_⟩
    rintro a hold b hb rfl
    obtain rfl : a = c.outlet := by simpa using hb
    obtain ⟨entry, hentry, hkey⟩ := List.mem_map.mp hold
    have hne := List.lookup_eq_none_iff.mp hnone entry hentry
    simp [hkey] at hne

end Pending

/-- What following the connections of a node adds to it and to the nodes that were there. -/
def Links (compiler : Compiler) (g : Graph) (before : List ChainNode) (n : ChainNode)
    (after : List ChainNode) : Except ChainError (List ChainNode) → Prop
  | .ok more => ∃ m fresh, more = before ++ m :: (after ++ fresh) ∧ m.node = n.node ∧
      m.kind = n.kind ∧ Linked g (ids more) m ∧
      Adds compiler g n.node (before ++ n :: after) fresh
  | .error e => Fails compiler g n.node e

/-- The node that a visit opens, with no connection followed yet. -/
theorem pending_opened {id : Uuid} {nodes : List ChainNode} {d : Node} {kind : ChainNode.Kind}
    (hplaces : Places g (ids nodes)) (hnew : id ∉ ids nodes) (hnode : g.node? id = some d)
    (hkind : kindOf compiler d = .ok (some kind)) (hopen : kind ≠ .finish) :
    Pending compiler g [] (g.leaving id) nodes ⟨id, kind, []⟩ [] := by
  have hmade : Made compiler g ⟨id, kind, []⟩ := ⟨d, hnode, hkind⟩
  constructor
  · constructor
    · rw [ids_append, List.nodup_append]
      refine ⟨hplaces.nodup, by simp, ?_⟩
      rintro a hold b hb rfl
      obtain rfl : a = id := by simpa using hb
      exact hnew hold
    · intro other hother
      rw [ids_append, List.mem_append] at hother
      rcases hother with hold | hother
      · exact hplaces.receives other hold
      · obtain rfl : other = id := by simpa using hother
        exact hmade.receives
  · exact hmade
  · exact hopen
  · rfl
  · intro outlet
    exact .none
  · exact List.nodup_nil

theorem means_finish {id : Uuid} {nodes : List ChainNode} {d : Node}
    (hplaces : Places g (ids nodes)) (hnew : id ∉ ids nodes) (hnode : g.node? id = some d)
    (hkind : kindOf compiler d = .ok (some .finish)) :
    Means compiler g id nodes (.ok (some nodes.length, nodes ++ [⟨id, .finish, []⟩])) := by
  have hmade : Made compiler g ⟨id, .finish, []⟩ := ⟨d, hnode, hkind⟩
  refine ⟨hmade.receives, by simp [ids], fun _ => rfl, [⟨id, .finish, []⟩], rfl, ?_⟩
  constructor
  · rw [ids_append, List.nodup_append]
    refine ⟨hplaces.nodup, by simp, ?_⟩
    rintro a hold b hb rfl
    obtain rfl : a = id := by simpa using hb
    exact hnew hold
  · intro n hn
    obtain rfl := List.mem_singleton.mp hn
    exact hmade
  · intro n hn
    obtain rfl := List.mem_singleton.mp hn
    exact ⟨fun _ => rfl, fun hopen => absurd rfl hopen, List.nodup_nil⟩
  · intro n hn
    obtain rfl := List.mem_singleton.mp hn
    exact .refl

/-- The node that a visit opened and the nodes that following its connections added are what the
visit adds. -/
theorem means_opens {id : Uuid} {nodes : List ChainNode} {kind : ChainNode.Kind}
    {r : Except ChainError (List ChainNode)} (hmade : Made compiler g ⟨id, kind, []⟩)
    (hlinks : Links compiler g nodes ⟨id, kind, []⟩ [] r) :
    Means compiler g id nodes (r.map fun more => (some nodes.length, more)) := by
  cases r with
  | error e => exact hlinks
  | ok more =>
    obtain ⟨m, fresh, rfl, hid, hkind, hlinked, hadds⟩ := hlinks
    have hids : ids (nodes ++ m :: fresh) = ids (nodes ++ [⟨id, kind, []⟩] ++ fresh) := by
      simp [hid]
    refine ⟨hmade.receives, by simp [ids, hid], fun _ => rfl, m :: fresh, rfl, ?_⟩
    constructor
    · rw [hids]
      exact hadds.nodup
    · intro n hn
      rcases List.mem_cons.mp hn with rfl | hn
      · obtain ⟨d, hnode, hd⟩ := hmade
        exact ⟨d, by rw [hid]; exact hnode, by rw [hkind]; exact hd⟩
      · exact hadds.made n hn
    · intro n hn
      rcases List.mem_cons.mp hn with rfl | hn
      · exact hlinked
      · rw [hids]
        exact hadds.linked n hn
    · intro n hn
      rcases List.mem_cons.mp hn with rfl | hn
      · rw [hid]
      · exact hadds.reached n hn

theorem Adds.join {id next : Uuid} {nodes first second : List ChainNode}
    (hpass : g.Passes id next) (hfirst : Adds compiler g next nodes first)
    (hsecond : Adds compiler g id (nodes ++ first) second) :
    Adds compiler g id nodes (first ++ second) := by
  have hassoc : nodes ++ (first ++ second) = nodes ++ first ++ second :=
    (List.append_assoc nodes first second).symm
  constructor
  · rw [hassoc]
    exact hsecond.nodup
  · intro n hn
    rcases List.mem_append.mp hn with hn | hn
    · exact hfirst.made n hn
    · exact hsecond.made n hn
  · intro n hn
    rw [hassoc]
    rcases List.mem_append.mp hn with hn | hn
    · rw [ids_append]
      exact (hfirst.linked n hn).append _
    · exact hsecond.linked n hn
  · intro n hn
    rcases List.mem_append.mp hn with hn | hn
    · exact .head hpass (hfirst.reached n hn)
    · exact hsecond.reached n hn

/-- What the rest of the connections adds, after a visit of the first of them. -/
theorem links_of_lead {before after fresh : List ChainNode} {n : ChainNode} {next : Uuid}
    {outlet : String} {t : Target} {r : Except ChainError (List ChainNode)}
    (hpass : g.Passes n.node next) (hadds : Adds compiler g next (before ++ n :: after) fresh)
    (h : Links compiler g before (addBranch outlet t n) (after ++ fresh) r) :
    Links compiler g before n after r := by
  cases r with
  | error e => exact h
  | ok more =>
    obtain ⟨m, rest, rfl, hid, hkind, hlinked, hrest⟩ := h
    refine ⟨m, fresh ++ rest, by simp, hid, hkind, hlinked, hadds.join hpass ?_⟩
    have hids : ids (before ++ n :: after ++ fresh ++ rest) =
        ids (before ++ addBranch outlet t n :: (after ++ fresh) ++ rest) := by simp [addBranch]
    constructor
    · rw [hids]
      exact hrest.nodup
    · exact hrest.made
    · rw [hids]
      exact hrest.linked
    · exact hrest.reached

mutual

theorem Visits.means : ∀ {id : Uuid} {nodes : List ChainNode} {r : Visit},
    Visits compiler g id nodes r → Places g (ids nodes) → Means compiler g id nodes r
  | _, nodes, _, .again hplace => by
    intro hplaces
    have hid := getElem?_of_place? hplace
    have hold := List.mem_of_getElem? hid
    exact ⟨hplaces.receives _ hold, hid, fun hnew => absurd hold hnew, [], by simp,
      .nil hplaces.nodup⟩
  | _, _, _, .missing _ hnode => by
    intro _
    exact ⟨rfl, by simp [Graph.receives, hnode]⟩
  | id, _, _, .refused _ hnode hkind => by
    intro _
    exact ⟨receives_of_kindOf hnode (by rw [hkind]; simp), id, _, .refl, hnode, hkind⟩
  | _, _, _, .start _ hnode hkind => by
    intro _
    exact ⟨rfl, by simp [Graph.receives, hnode, kindOf_eq_none_iff.mp hkind]⟩
  | _, _, _, .finish hplace hnode hkind => by
    intro hplaces
    exact means_finish hplaces (place?_eq_none_iff.mp hplace) hnode hkind
  | _, _, _, .opens hplace hnode hkind hopen hf => by
    have hlinks := hf.links
    intro hplaces
    -- no connection of the node has been followed yet, and following all of them completes it
    have hpending := pending_opened hplaces (place?_eq_none_iff.mp hplace) hnode hkind hopen
    exact means_opens hpending.made (hlinks _ _ _ _ rfl rfl hpending)

theorem Follows.links : ∀ {index : Nat} {cs : List Connection} {nodes : List ChainNode}
    {r : Except ChainError (List ChainNode)}, Follows compiler g index cs nodes r →
      ∀ (followed : List Connection) (before after : List ChainNode) (n : ChainNode),
        nodes = before ++ n :: after → index = before.length →
        Pending compiler g followed cs before n after → Links compiler g before n after r
  | _, _, _, _, .done => by
    rintro followed before after n rfl rfl hp
    refine ⟨n, [], by simp, rfl, rfl, ?_, .nil hp.places.nodup⟩
    refine ⟨fun hfinish => absurd hfinish hp.opened, fun _ outlet => ?_, hp.nodup⟩
    have hsplit : g.leaving n.node = followed := by rw [hp.split, List.append_nil]
    rw [Graph.next?, hsplit]
    exact hp.branch outlet
  | _, _, _, _, .taken htaken hf => by
    have hlinks := hf.links
    rintro followed before after n rfl rfl hp
    rw [hp.hasBranch] at htaken
    exact hlinks _ _ _ _ rfl rfl (hp.skip (Graph.route?_concat_of_taken htaken))
  | _, _, _, _, .fails hfree hv => by
    have hmeans := hv.means
    rintro followed before after n rfl rfl hp
    obtain ⟨hreceives, other, d, hreach, hnode, hkind⟩ := hmeans hp.places
    exact ⟨hp.made.receives, other, d, .head (hp.passes hfree hreceives) hreach, hnode, hkind⟩
  | _, _, _, _, .dangles hfree hv hf => by
    have hmeans := hv.means
    have hlinks := hf.links
    rintro followed before after n rfl rfl hp
    obtain ⟨rfl, hdangling⟩ := hmeans hp.places
    exact hlinks _ _ _ _ rfl rfl (hp.skip (Graph.route?_concat_of_dangling hdangling followed))
  | _, _, _, _, .leads hfree hv hf => by
    have hmeans := hv.means
    have hlinks := hf.links
    rintro followed before after n rfl rfl hp
    -- the visit of the target adds nodes at the end, so the node keeps its place among them
    obtain ⟨hreceives, htarget, _, fresh, rfl, hadds⟩ := hmeans hp.places
    have hnext := hp.lead hfree hreceives htarget hadds
    refine links_of_lead (hp.passes hfree hreceives) hadds (hlinks _ _ _ _ ?_ rfl hnext)
    rw [List.append_assoc, List.cons_append, Script.modify_append_cons]

end

end

/-- The nodes of a graph: exactly those to which control passes from its entry, the entry first,
each once and with branches where the routes lead. -/
structure Flat (compiler : Compiler) (g : Graph) (nodes : List ChainNode) : Prop where
  nodup : (ids nodes).Nodup
  made : ∀ n ∈ nodes, Made compiler g n
  linked : ∀ n ∈ nodes, Linked g (ids nodes) n
  first : (ids nodes).head? = g.entry?
  mem_iff : ∀ id, id ∈ ids nodes ↔ ∃ first, g.entry? = some first ∧ ReflTransGen g.Passes first id

section
variable {compiler : Compiler} {g : Graph} {nodes : List ChainNode}

theorem entry?_eq (g : Graph) : g.entry? = (firstTarget? g).filter g.receives := rfl

theorem flat_nil (h : g.entry? = none) : Flat compiler g [] where
  nodup := List.nodup_nil
  made := by simp
  linked := by simp
  first := by simp [h]
  mem_iff := by simp [h]

theorem Made.open_iff {n : ChainNode} {d : Node} (h : Made compiler g n)
    (hnode : g.node? n.node = some d) : n.kind ≠ .finish ↔ d.kind ≠ .finish := by
  obtain ⟨e, he, hkind⟩ := h
  obtain rfl := Option.some.inj (hnode.symm.trans he)
  have hfinish : kindOf compiler d = .ok (some .finish) ↔ d.kind = .finish :=
    kindOf_eq_finish_iff
  rw [hkind] at hfinish
  exact not_congr (by simpa using hfinish)

/-- Control passes from built nodes to built nodes only. -/
theorem mem_of_passes {a b : Uuid} (hmade : ∀ n ∈ nodes, Made compiler g n)
    (hlinked : ∀ n ∈ nodes, Linked g (ids nodes) n) (ha : a ∈ ids nodes) (h : g.Passes a b) :
    b ∈ ids nodes := by
  obtain ⟨n, hn, rfl⟩ := List.mem_map.mp ha
  obtain ⟨⟨d, hnode, hopen⟩, outlet, hnext⟩ := h
  have hrel := (hlinked n hn).branch (((hmade n hn).open_iff hnode).mpr hopen) outlet
  rw [hnext] at hrel
  generalize n.branch? outlet = target at hrel
  cases hrel with
  | some hstands => exact List.mem_of_getElem? hstands.2

theorem flat_of_adds {first : Uuid} (hentry : g.entry? = some first)
    (hfirst : (ids nodes)[0]? = some first) (hadds : Adds compiler g first [] nodes) :
    Flat compiler g nodes where
  nodup := hadds.nodup
  made := hadds.made
  linked := hadds.linked
  first := by rw [hentry, List.head?_eq_getElem?, hfirst]
  mem_iff := by
    intro id
    constructor
    · intro hid
      obtain ⟨n, hn, rfl⟩ := List.mem_map.mp hid
      exact ⟨first, hentry, hadds.reached n hn⟩
    · rintro ⟨other, hother, hreach⟩
      obtain rfl := Option.some.inj (hentry.symm.trans hother)
      induction hreach with
      | refl => exact List.mem_of_getElem? hfirst
      | tail _ hpass ih => exact mem_of_passes hadds.made hadds.linked ih hpass

theorem places_nil (g : Graph) : Places g (ids []) where
  nodup := List.nodup_nil
  receives := by simp

theorem flat_of_flattens (h : Flattens compiler g (.ok nodes)) : Flat compiler g nodes := by
  generalize hr : Except.ok nodes = r at h
  cases h with
  | empty hfirst =>
    obtain rfl := Except.ok.inj hr
    exact flat_nil (by rw [entry?_eq, hfirst]; rfl)
  | @visits first r hfirst hv =>
    have hmeans := hv.means (places_nil g)
    match r, hr, hmeans with
    | .ok (none, _), hr, ⟨hmore, hdangling⟩ =>
      obtain rfl : nodes = _ := Except.ok.inj hr
      rw [hmore]
      exact flat_nil (by simp [entry?_eq, hfirst, hdangling])
    | .ok (some index, _), hr, ⟨hreceives, hid, hindex, fresh, hmore, hadds⟩ =>
      obtain rfl : nodes = _ := Except.ok.inj hr
      rw [List.nil_append] at hmore
      obtain rfl : index = 0 := hindex (by simp)
      subst hmore
      exact flat_of_adds (by simp [entry?_eq, hfirst, hreceives]) hid hadds

/-- Flattening fails for a node to which control passes from the entry. -/
theorem fails_of_flattens {e : ChainError} (h : Flattens compiler g (.error e)) :
    ∃ first other d, g.entry? = some first ∧ ReflTransGen g.Passes first other ∧
      g.node? other = some d ∧ kindOf compiler d = .error e := by
  generalize hr : Except.error e = r at h
  cases h with
  | empty => simp at hr
  | @visits first r hfirst hv =>
    have hmeans := hv.means (places_nil g)
    cases r with
    | ok p => simp [Except.map] at hr
    | error e' =>
      obtain rfl : e = e' := Except.error.inj hr
      obtain ⟨hreceives, other, d, hreach, hnode, hkind⟩ := hmeans
      exact ⟨first, other, d, by simp [entry?_eq, hfirst, hreceives], hreach, hnode, hkind⟩

end

end Fabula.Chain
