import Fabula.Proofs.Chain.Built
import Fabula.Proofs.Chain.Footing

/-!
# Connections that lead nowhere

A connection leads nowhere if its target is missing or a start. Where the connections of a visited
node are followed it is passed over, so it takes nothing from those after it. From the start node
the first default connection alone is followed: if that one leads nowhere, the graph is built as
if nothing were connected.
-/

namespace Fabula

open Script (Compiler)

namespace Graph

/-- The graph with one more connection, after the first `n`. -/
def inserted (g : Graph) (n : Nat) (c : Connection) : Graph :=
  { g with connections := g.connections.take n ++ c :: g.connections.drop n }

def disconnected (g : Graph) : Graph := { g with connections := [] }

/-- Whether the connection leaves the start node by the default outlet. -/
def setsOut (g : Graph) (c : Connection) : Bool := c.source == g.start.id && c.isDefault

/-- After the first `n` connections the connection would be the first that sets out. -/
def Heads (g : Graph) (n : Nat) (c : Connection) : Prop :=
  g.setsOut c = true ∧ ∀ d ∈ g.connections.take n, g.setsOut d = false

/-- The connections that leave a node and lead on. -/
def onward (g : Graph) (id : Uuid) : List Connection :=
  (g.leaving id).filter fun c => g.receives c.target

/-- The graphs have the same nodes, and the same connections lead on. -/
structure Alike (g h : Graph) : Prop where
  id : h.id = g.id
  nodes : h.nodes = g.nodes
  onward : ∀ id, h.onward id = g.onward id

section
variable {g h : Graph} {n : Nat} {c : Connection}

theorem connections_inserted (g : Graph) (n : Nat) (c : Connection) :
    (g.inserted n c).connections = g.connections.take n ++ c :: g.connections.drop n := rfl

theorem setsOut_inserted (g : Graph) (n : Nat) (c : Connection) :
    (g.inserted n c).setsOut = g.setsOut := rfl

theorem receives_inserted (g : Graph) (n : Nat) (c : Connection) :
    (g.inserted n c).receives = g.receives := rfl

theorem Alike.node? (halike : g.Alike h) (id : Uuid) : h.node? id = g.node? id := by
  rw [Graph.node?, halike.nodes, Graph.node?]

theorem Alike.receives (halike : g.Alike h) (id : Uuid) : h.receives id = g.receives id := by
  rw [Graph.receives, halike.node?, Graph.receives]

theorem receives_eq_false_iff {id : Uuid} :
    g.receives id = false ↔ ∀ d, g.node? id = some d → d.kind = .start := by
  rw [← Bool.not_eq_true, receives_iff]
  simp

theorem alike_inserted (hc : g.receives c.target = false) (n : Nat) : g.Alike (g.inserted n c) where
  id := rfl
  nodes := rfl
  onward := by
    intro id
    have hgone : ¬ (g.receives c.target && c.source == id) = true := by simp [hc]
    rw [onward, onward, leaving, leaving, List.filter_filter, List.filter_filter,
      connections_inserted, receives_inserted, List.filter_append, List.filter_cons, if_neg hgone,
      ← List.filter_append, List.take_append_drop]

end

end Graph

namespace Library

/-- The library with another graph under a key. -/
def replaced (l : Library) (key : Uuid) (g : Graph) : Library := ⟨put key g l.entries⟩

section
variable {l : Library} {key other : Uuid} {g h : Graph}

theorem lookup_put (entries : List (Uuid × Graph)) :
    (put key g entries).lookup other = if other = key then some g else entries.lookup other := by
  induction entries with
  | nil =>
    rw [put, List.lookup_cons, List.lookup_nil]
    split <;> simp_all
  | cons entry rest ih =>
    obtain ⟨k, v⟩ := entry
    rw [put]
    split
    · rename_i hk
      subst hk
      rw [List.lookup_cons, List.lookup_cons]
      split <;> simp_all
    · rw [List.lookup_cons, List.lookup_cons, ih]
      split <;> simp_all

theorem get?_replaced_self (l : Library) (key : Uuid) (g : Graph) :
    (l.replaced key g).get? key = some g := by
  rw [get?, replaced, lookup_put, if_pos rfl]

theorem get?_replaced_of_ne (h : other ≠ key) :
    (l.replaced key g).get? other = l.get? other := by
  rw [get?, replaced, lookup_put, if_neg h, get?]

theorem length_put {entries : List (Uuid × Graph)} (hg : entries.lookup key = some g) :
    (put key h entries).length = entries.length := by
  induction entries with
  | nil => cases hg
  | cons entry rest ih =>
    obtain ⟨k, v⟩ := entry
    rw [put]
    split
    · rfl
    · rename_i hk
      rw [List.lookup_cons, beq_eq_false_iff_ne.mpr (Ne.symm hk)] at hg
      rw [List.length_cons, List.length_cons, ih hg]

theorem size_replaced (hg : l.get? key = some g) : (l.replaced key h).size = l.size :=
  length_put hg

end

end Library

namespace Chain

section
variable {compiler : Compiler} {g h : Graph} {v w : Uuid → List ChainNode → Visit} {key : Uuid}
  {index n : Nat} {cs : List Connection} {c : Connection} {nodes built : List ChainNode}

/-- Chain nodes were only built of nodes to which a connection may lead. -/
def Settled (g : Graph) (nodes : List ChainNode) : Prop := ∀ id ∈ ids nodes, g.receives id = true

/-- Visits that pass over what a connection may not lead to. -/
structure Steady (g : Graph) (v : Uuid → List ChainNode → Visit) : Prop where
  skips : ∀ id nodes, Settled g nodes → g.receives id = false → v id nodes = .ok (none, nodes)
  settled : ∀ id nodes p, Settled g nodes → v id nodes = .ok p → Settled g p.2

theorem settled_nil (g : Graph) : Settled g [] := by simp [Settled]

theorem Settled.branch (hnodes : Settled g nodes) (index : Nat) (outlet : String) (t : Target) :
    Settled g (nodes.modify index (addBranch outlet t)) := by
  rwa [Settled, ids_modify_addBranch]

theorem Settled.concat {id : Uuid} {d : Node} {kind : ChainNode.Kind} (hnodes : Settled g nodes)
    (hnode : g.node? id = some d) (hkind : kindOf compiler d = .ok (some kind)) :
    Settled g (nodes ++ [⟨id, kind, []⟩]) := by
  intro other hother
  rw [ids_append, List.mem_append] at hother
  rcases hother with hold | hnew
  · exact hnodes other hold
  · obtain rfl : other = id := by simpa using hnew
    have hfollowed : kindOf compiler d ≠ .ok none := by simp [hkind]
    exact receives_of_kindOf hnode hfollowed

theorem Steady.follow_settled (hv : Steady g v) (hnodes : Settled g nodes)
    (hfollow : follow v key index cs nodes = .ok built) : Settled g built := by
  induction cs generalizing nodes with
  | nil =>
    obtain rfl := Except.ok.inj hfollow
    exact hnodes
  | cons c rest ih =>
    unfold follow at hfollow
    split at hfollow
    · exact ih hnodes hfollow
    · split at hfollow
      · cases hfollow
      · rename_i hvisit
        exact ih (hv.settled _ _ _ hnodes hvisit) hfollow
      · rename_i hvisit
        exact ih ((hv.settled _ _ _ hnodes hvisit).branch _ _ _) hfollow

theorem Steady.congr (hv : Steady g v)
    (hw : ∀ id nodes, Settled g nodes → w id nodes = v id nodes) : Steady g w where
  skips := fun id nodes hnodes hid => (hw id nodes hnodes).trans (hv.skips id nodes hnodes hid)
  settled := fun id nodes p hnodes hp =>
    hv.settled id nodes p hnodes ((hw id nodes hnodes).symm.trans hp)

/-- Connections that lead nowhere are passed over. -/
theorem Steady.follow_onward (hv : Steady g v)
    (hw : ∀ id nodes, Settled g nodes → w id nodes = v id nodes) (hnodes : Settled g nodes) :
    follow w key index (cs.filter fun c => g.receives c.target) nodes =
      follow v key index cs nodes := by
  induction cs generalizing nodes with
  | nil => rfl
  | cons c rest ih =>
    cases hc : g.receives c.target with
    | false =>
      rw [List.filter_cons, if_neg (by simp [hc]), ih hnodes, follow, hv.skips _ _ hnodes hc,
        ite_self]
    | true =>
      rw [List.filter_cons, if_pos hc, follow, follow, ih hnodes, hw _ _ hnodes]
      cases hvisit : v c.target nodes with
      | error e => rfl
      | ok p =>
        have hmore := hv.settled _ _ _ hnodes hvisit
        obtain ⟨_ | target, more⟩ := p
        · simp only [ih hmore]
        · simp only [ih (hmore.branch index c.outlet ⟨key, target⟩)]

theorem steady_visit (compiler : Compiler) (g : Graph) (depth : Nat) :
    Steady g (visit compiler g depth) := by
  induction depth with
  | zero =>
    refine ⟨fun _ _ _ _ => rfl, fun _ _ p hnodes hp => ?_⟩
    obtain rfl := Except.ok.inj hp
    exact hnodes
  | succ depth ih =>
    constructor
    · intro id nodes hnodes hid
      have hnew : place? nodes id = none := by
        refine place?_eq_none_iff.mpr fun hmem => ?_
        simp [hnodes id hmem] at hid
      rw [visit, hnew]
      cases hnode : g.node? id with
      | none => rfl
      | some d =>
        simp only [kindOf_eq_none_iff.mpr (Graph.receives_eq_false_iff.mp hid d hnode)]
    · intro id nodes p hnodes hp
      unfold visit at hp
      split at hp
      · obtain rfl := Except.ok.inj hp
        exact hnodes
      · split at hp
        · obtain rfl := Except.ok.inj hp
          exact hnodes
        · rename_i d hnode
          split at hp
          · cases hp
          · obtain rfl := Except.ok.inj hp
            exact hnodes
          · rename_i kind hkind
            have hopened := hnodes.concat hnode hkind
            dsimp only at hp
            split at hp
            · obtain rfl := Except.ok.inj hp
              exact hopened
            · cases hfollow : follow (visit compiler g depth) g.id nodes.length (g.leaving id)
                  (nodes ++ [⟨id, kind, []⟩]) with
              | error e => simp [hfollow, Except.map] at hp
              | ok more =>
                rw [hfollow] at hp
                obtain rfl := Except.ok.inj hp
                exact ih.follow_settled hopened hfollow

theorem visit_of_not_receives (depth : Nat) {id : Uuid} (hid : g.receives id = false)
    (hnodes : Settled g nodes) : visit compiler g depth id nodes = .ok (none, nodes) :=
  (steady_visit compiler g depth).skips id nodes hnodes hid

/-- The connections that lead on decide what is built. -/
theorem visit_alike (halike : g.Alike h) (depth : Nat) (id : Uuid) (hnodes : Settled g nodes) :
    visit compiler h depth id nodes = visit compiler g depth id nodes := by
  induction depth generalizing id nodes with
  | zero => rfl
  | succ depth ih =>
    have hsteady := steady_visit compiler g depth
    rw [visit, visit, halike.node?, halike.id]
    split
    · rfl
    · split
      · rfl
      · rename_i d hnode
        split
        · rfl
        · rfl
        · rename_i kind hkind
          have hopened := hnodes.concat hnode hkind
          have honward := halike.onward id
          simp only [Graph.onward, halike.receives] at honward
          -- either graph is followed as its connections that lead on are, and those are the same
          have hsame := calc
            follow (visit compiler h depth) g.id nodes.length (h.leaving id)
                (nodes ++ [⟨id, kind, []⟩])
            _ = follow (visit compiler h depth) g.id nodes.length
                  ((h.leaving id).filter fun c => g.receives c.target)
                  (nodes ++ [⟨id, kind, []⟩]) :=
                ((hsteady.congr fun id _ => ih id).follow_onward (fun _ _ _ => rfl) hopened).symm
            _ = follow (visit compiler g depth) g.id nodes.length (g.leaving id)
                  (nodes ++ [⟨id, kind, []⟩]) := by
                rw [honward, hsteady.follow_onward (fun id _ => ih id) hopened]
          simp only [hsame]

theorem firstTarget?_eq (g : Graph) :
    firstTarget? g = (g.connections.find? g.setsOut).map (·.target) := by
  rw [firstTarget?, Graph.leaving, List.find?_filter]
  simp only [Bool.decide_and, Bool.decide_eq_true]
  rfl

theorem firstTarget?_inserted_of_not_heads (h : ¬ g.Heads n c) :
    firstTarget? (g.inserted n c) = firstTarget? g := by
  rw [firstTarget?_eq, firstTarget?_eq, Graph.connections_inserted, Graph.setsOut_inserted]
  congr 1
  conv_rhs => rw [← List.take_append_drop n g.connections]
  rw [List.find?_append, List.find?_append, List.find?_cons]
  cases hc : g.setsOut c with
  | false => rfl
  | true =>
    -- another connection that sets out comes before
    have hsome : ((g.connections.take n).find? g.setsOut).isSome = true := by
      rw [List.find?_isSome]
      by_contra hnone
      exact h ⟨hc, by simpa using hnone⟩
    rw [Option.or_of_isSome hsome, Option.or_of_isSome hsome]

theorem firstTarget?_inserted_of_heads (h : g.Heads n c) :
    firstTarget? (g.inserted n c) = some c.target := by
  have hnone : (g.connections.take n).find? g.setsOut = none := by
    simpa [List.find?_eq_none] using h.2
  rw [firstTarget?_eq, Graph.connections_inserted, Graph.setsOut_inserted, List.find?_append,
    hnone, List.find?_cons, h.1]
  rfl

theorem entry?_inserted_of_heads (h : g.Heads n c) (hc : g.receives c.target = false) :
    Graph.entry? (g.inserted n c) = none := by
  rw [entry?_eq, firstTarget?_inserted_of_heads h, Graph.receives_inserted]
  simp [hc]

/-- A graph without an entry has no chain nodes. -/
theorem flatten_of_entry?_eq_none (h : g.entry? = none) : flatten compiler g = .ok [] := by
  unfold flatten
  split
  · rfl
  · rename_i first hfirst
    have hid : g.receives first = false := by simpa [entry?_eq, hfirst] using h
    rw [visit_of_not_receives _ hid (settled_nil g)]
    rfl

theorem flatten_alike (halike : g.Alike h) (hfirst : firstTarget? h = firstTarget? g) :
    flatten compiler h = flatten compiler g := by
  rw [flatten, flatten, hfirst, halike.nodes]
  cases firstTarget? g with
  | none => rfl
  | some first => simp only [visit_alike halike _ _ (settled_nil g)]

theorem flatten_inserted (hc : g.receives c.target = false)
    (h : ¬ (g.Heads n c ∧ g.entry? ≠ none)) :
    flatten compiler (g.inserted n c) = flatten compiler g := by
  by_cases hheads : g.Heads n c
  · have hentry : g.entry? = none := by
      by_contra hentry
      exact h ⟨hheads, hentry⟩
    rw [flatten_of_entry?_eq_none hentry,
      flatten_of_entry?_eq_none (entry?_inserted_of_heads hheads hc)]
  · exact flatten_alike (Graph.alike_inserted hc n) (firstTarget?_inserted_of_not_heads hheads)

theorem flatten_inserted_of_heads (hc : g.receives c.target = false) (h : g.Heads n c) :
    flatten compiler (g.inserted n c) = flatten compiler g.disconnected := by
  have hentry : g.disconnected.entry? = none := rfl
  rw [flatten_of_entry?_eq_none (entry?_inserted_of_heads h hc), flatten_of_entry?_eq_none hentry]

end

section
variable {compiler : Compiler} {l m : Library} {root key : Uuid} {g h : Graph}

/-- Libraries that agree on the graphs that are called have the same chain. -/
theorem flattenAll_congr {fuel : Nat} {queue seen : List Uuid}
    {done : List (Uuid × List ChainNode)} (hp : Progress compiler l root queue seen done)
    (hsame : ∀ key, Called l root key →
      (m.get? key).map (flatten compiler) = (l.get? key).map (flatten compiler)) :
    flattenAll compiler m fuel queue seen done = flattenAll compiler l fuel queue seen done := by
  induction fuel generalizing queue seen done with
  | zero => cases queue <;> rfl
  | succ fuel ih =>
    cases queue with
    | nil => rfl
    | cons id queue =>
      have hid := hsame id hp.called_head
      rw [flattenAll, flattenAll]
      cases hg : l.get? id with
      | none =>
        rw [hg, Option.map_none, Option.map_eq_none_iff] at hid
        rw [hid]
      | some g =>
        rw [hg] at hid
        obtain ⟨h, hh, hflat⟩ := Option.map_eq_some_iff.mp hid
        rw [hh]
        dsimp only
        rw [hflat]
        cases hnodes : flatten compiler g with
        | error e => rfl
        | ok nodes =>
          have hflattens := flattens_flatten compiler g
          rw [hnodes] at hflattens
          exact ih (hp.step hg (flat_of_flattens hflattens))

theorem build_congr (hsize : m.size = l.size) (hsame : ∀ key, Called l root key →
      (m.get? key).map (flatten compiler) = (l.get? key).map (flatten compiler)) :
    build compiler m root = build compiler l root := by
  rw [build, build, hsize, flattenAll_congr progress_root hsame]

theorem build_replaced (hg : l.get? key = some g)
    (hsame : Called l root key → flatten compiler h = flatten compiler g) :
    build compiler (l.replaced key h) root = build compiler l root := by
  refine build_congr (Library.size_replaced hg) fun other hother => ?_
  by_cases hkey : other = key
  · subst hkey
    rw [Library.get?_replaced_self, hg, Option.map_some, Option.map_some, hsame hother]
  · rw [Library.get?_replaced_of_ne hkey]

theorem build_replaced_congr {h' : Graph} (hg : l.get? key = some g)
    (hsame : flatten compiler h' = flatten compiler h) :
    build compiler (l.replaced key h') root = build compiler (l.replaced key h) root := by
  refine build_congr ((Library.size_replaced hg).trans (Library.size_replaced hg).symm) ?_
  intro other _
  by_cases hkey : other = key
  · subst hkey
    rw [Library.get?_replaced_self, Library.get?_replaced_self, Option.map_some, Option.map_some,
      hsame]
  · rw [Library.get?_replaced_of_ne hkey, Library.get?_replaced_of_ne hkey]

/-- A called graph opens in the chain with its entry. -/
theorem head?_of_build {chain : Chain} (h : build compiler l root = .ok chain)
    (hkey : Called l root key) (hg : l.get? key = some g) :
    ∃ nodes, chain.graphs.lookup key = some nodes ∧ (ids nodes).head? = g.entry? := by
  obtain ⟨all, hp⟩ := progress_of_build h
  obtain ⟨nodes, hnodes⟩ := Option.isSome_iff_exists.mp ((hp.lookup_isSome key).mpr hkey)
  obtain ⟨g', hg', hholds⟩ := hp.holds hnodes
  obtain rfl := Option.some.inj (hg.symm.trans hg')
  exact ⟨nodes, hnodes, hholds.first⟩

end

/-- A connection that leads nowhere changes nothing, wherever it is inserted, unless it is the
first that sets out in a called graph with an entry. Where it is the first that sets out, the chain
is the one without the connections of its graph. -/
theorem dangling_hides_only_entries (compiler : Compiler) (l : Library) (root : Uuid) {key : Uuid}
    {g : Graph} (hg : l.get? key = some g) (n : Nat) {c : Connection}
    (hc : g.receives c.target = false) :
    (¬ (g.Heads n c ∧ g.entry? ≠ none ∧ Called l root key) →
      build compiler (l.replaced key (g.inserted n c)) root = build compiler l root) ∧
    (g.Heads n c → build compiler (l.replaced key (g.inserted n c)) root =
      build compiler (l.replaced key g.disconnected) root) ∧
    ∀ chain, build compiler l root = .ok chain →
      (build compiler (l.replaced key (g.inserted n c)) root = .ok chain ↔
        ¬ (g.Heads n c ∧ g.entry? ≠ none ∧ Called l root key)) := by
  have hkept : ¬ (g.Heads n c ∧ g.entry? ≠ none ∧ Called l root key) →
      build compiler (l.replaced key (g.inserted n c)) root = build compiler l root := by
    intro hnot
    refine build_replaced hg fun hcalled => flatten_inserted hc ?_
    rintro ⟨hheads, hentry⟩
    exact hnot ⟨hheads, hentry, hcalled⟩
  refine ⟨hkept, fun hheads => build_replaced_congr hg (flatten_inserted_of_heads hc hheads), ?_⟩
  intro chain hbuild
  refine ⟨fun hsame => ?_, fun hnot => (hkept hnot).trans hbuild⟩
  rintro ⟨hheads, hentry, hcalled⟩
  -- the graph opens with its entry in the one chain and is empty in the other
  obtain ⟨nodes, hnodes, hfirst⟩ := head?_of_build hbuild hcalled hg
  obtain ⟨all, hp⟩ := progress_of_build hsame
  obtain ⟨g', hg', hholds⟩ := hp.holds hnodes
  obtain rfl := Option.some.inj ((Library.get?_replaced_self l key _).symm.trans hg')
  rw [hholds.first, entry?_inserted_of_heads hheads hc] at hfirst
  exact hentry hfirst.symm

def porch : Graph := { Graph.bare (.ofNat 1) (.ofNat 2) (.ofNat 3) "porch" with
  stories := [.ofKind (.ofNat 4) (.story ⟨⟨"a", ": one"⟩, []⟩)]
  connections := [⟨.ofNat 2, defaultOutlet, .ofNat 4, defaultOutlet⟩] }

/-- A connection from the start node back to it. -/
def turnBack : Connection := ⟨.ofNat 2, defaultOutlet, .ofNat 2, defaultOutlet⟩

/-- Behind the connection to the story the one that turns back changes nothing. -/
theorem turnBack_behind_story : porch.receives turnBack.target = false ∧
    build .standard (Library.replaced ⟨[(.ofNat 1, porch)]⟩ (.ofNat 1)
        (porch.inserted 1 turnBack)) (.ofNat 1) =
      build .standard ⟨[(.ofNat 1, porch)]⟩ (.ofNat 1) := by
  refine ⟨rfl, (dangling_hides_only_entries .standard _ (.ofNat 1) rfl 1 rfl).1 ?_⟩
  rintro ⟨⟨_, hfirst⟩, _⟩
  have hstory := hfirst ⟨.ofNat 2, defaultOutlet, .ofNat 4, defaultOutlet⟩ List.mem_cons_self
  exact absurd hstory (by decide)

/-- Before it the story is hidden: the walk that began with the story has come to its end. -/
theorem turnBack_hides_story : porch.receives turnBack.target = false ∧
    ∃ chain hidden, build .standard ⟨[(.ofNat 1, porch)]⟩ (.ofNat 1) = .ok chain ∧
      build .standard (Library.replaced ⟨[(.ofNat 1, porch)]⟩ (.ofNat 1)
        (porch.inserted 0 turnBack)) (.ofNat 1) = .ok hidden ∧
      (chain.make .reset).1 = .ok (.story ⟨"a", [.say ⟨"", "", "one"⟩], [], [], []⟩) ∧
      (hidden.make .reset).1 = .ok .ended :=
  ⟨rfl, _, _, rfl, rfl, rfl, rfl⟩

end Chain

end Fabula
