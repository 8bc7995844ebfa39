import Fabula.Proofs.Graph.Edits
import Fabula.Proofs.Graph.Routes

/-!
# Pruned graphs

Pruning takes the connections away that leave by no outlet of their node. Nodes stay, and so do the
routes by the outlets that there are; a route by another outlet is gone. What can be reached in a
pruned library can be reached in the library, and the same graphs are called or fewer.
-/

namespace Fabula

open Script (Compiler)

namespace Graph

/-- The graph without its stale connections. -/
def pruned (compiler : Compiler) (g : Graph) : Graph := (g.prune compiler).2

section
variable {compiler : Compiler} {g : Graph} {id : Uuid}

@[simp] theorem pruned_start : (g.pruned compiler).start = g.start := rfl

@[simp] theorem pruned_node? (id : Uuid) : (g.pruned compiler).node? id = g.node? id := rfl

@[simp] theorem pruned_receives (id : Uuid) : (g.pruned compiler).receives id = g.receives id :=
  rfl

theorem connections_pruned :
    (g.pruned compiler).connections = g.connections.filter fun c => !g.isStale compiler c := by
  refine List.filter_congr fun c hc => ?_
  rw [Bool.not_inj_iff, Bool.eq_iff_iff, List.contains_iff_mem, List.mem_filter]
  exact ⟨fun h => h.2, fun h => ⟨hc, h⟩⟩

/-- From a node those connections leave that leave by its outlets. -/
theorem leaving_pruned {n : Node} (hnode : g.node? id = some n) :
    (g.pruned compiler).leaving id =
      (g.leaving id).filter fun c => (outletsOf compiler n.kind).contains c.outlet := by
  rw [leaving, leaving, connections_pruned, List.filter_filter, List.filter_filter]
  refine List.filter_congr fun c _ => ?_
  by_cases hsource : c.source = id
  · subst hsource
    simp [isStale, outlets, hnode]
  · simp [beq_eq_false_iff_ne.mpr hsource]

theorem next?_pruned_of_mem {n : Node} {outlet : String} (hnode : g.node? id = some n)
    (houtlet : outlet ∈ outletsOf compiler n.kind) :
    (g.pruned compiler).next? id outlet = g.next? id outlet := by
  have hfind : ∀ cs : List Connection,
      (cs.filter fun c => (outletsOf compiler n.kind).contains c.outlet).find?
          (fun c => c.outlet == outlet && g.receives c.target) =
        cs.find? fun c => c.outlet == outlet && g.receives c.target := by
    intro cs
    rw [List.find?_filter]
    congr 1
    funext c
    by_cases hsame : c.outlet = outlet
    · simp [hsame, houtlet]
    · simp [hsame]
  simp only [next?, route?, leaving_pruned hnode, pruned_receives, hfind]

theorem next?_pruned_of_not_mem {n : Node} {outlet : String} (hnode : g.node? id = some n)
    (houtlet : outlet ∉ outletsOf compiler n.kind) :
    (g.pruned compiler).next? id outlet = none := by
  have hnone : ((g.pruned compiler).leaving id).find?
      (fun c => c.outlet == outlet && (g.pruned compiler).receives c.target) = none := by
    rw [List.find?_eq_none]
    intro c hc hleads
    rw [leaving_pruned hnode] at hc
    have hc := (List.mem_filter.mp hc).2
    simp only [Bool.and_eq_true, beq_iff_eq] at hleads
    rw [hleads.1, List.contains_iff_mem] at hc
    exact houtlet hc
  rw [next?, route?, hnone, Option.map_none]

theorem Passes.of_pruned {a b : Uuid} (h : (g.pruned compiler).Passes a b) : g.Passes a b := by
  obtain ⟨⟨n, hpruned, hopen⟩, outlet, hnext⟩ := h
  have hnode : g.node? a = some n := hpruned
  refine ⟨⟨n, hnode, hopen⟩, outlet, ?_⟩
  by_cases houtlet : outlet ∈ outletsOf compiler n.kind
  · rwa [next?_pruned_of_mem hnode houtlet] at hnext
  · rw [next?_pruned_of_not_mem hnode houtlet] at hnext
    cases hnext

/-- A start node keeps its default connections, and so a graph its entry. -/
theorem entry?_pruned (hstart : g.start.kind = .start) :
    entry? (g.pruned compiler) = g.entry? := by
  have hnode : g.node? g.start.id = some g.start := by simp [node?, nodes]
  have hfind : ∀ cs : List Connection,
      (cs.filter fun c => (outletsOf compiler g.start.kind).contains c.outlet).find?
        Connection.isDefault = cs.find? Connection.isDefault := by
    intro cs
    rw [List.find?_filter]
    congr 1
    funext c
    simp [hstart, outletsOf, Connection.isDefault, Bool.beq_eq_decide_eq]
  simp only [pruned_start, entry?, leaving_pruned hnode, hfind]
  rfl

end

/-- A graph that a host made, bare or from a blueprint, and edited. -/
def Authored (g : Graph) : Prop :=
  ∃ bare made edits, Created bare made ∧ g = made.editAll edits

theorem Authored.arranged {g : Graph} (h : g.Authored) : g.Arranged := by
  obtain ⟨bare, made, edits, hcreated, rfl⟩ := h
  exact (hcreated.sound.editAll edits).arranged

end Graph

namespace Library

/-- The library to which graphs were added one after the other. -/
def ofGraphs (gs : List Graph) : Library := gs.foldl insert empty

def pruned (compiler : Compiler) (l : Library) : Library :=
  ⟨l.entries.map fun entry => (entry.1, entry.2.pruned compiler)⟩

section
variable {compiler : Compiler} {l : Library}

theorem get?_pruned (key : Uuid) :
    (l.pruned compiler).get? key = (l.get? key).map (Graph.pruned compiler) := by
  unfold get? pruned
  induction l.entries with
  | nil => rfl
  | cons entry rest ih =>
    rw [List.map_cons, List.lookup_cons, List.lookup_cons, ih]
    cases key == entry.1 <;> rfl

theorem put_map {α β : Type} (f : α → β) (key : Uuid) (value : α) (entries : List (Uuid × α)) :
    put key (f value) (entries.map fun entry => (entry.1, f entry.2)) =
      (put key value entries).map fun entry => (entry.1, f entry.2) := by
  induction entries with
  | nil => rfl
  | cons entry rest ih =>
    obtain ⟨k, v⟩ := entry
    simp only [List.map_cons, put]
    split
    · rfl
    · rw [ih, List.map_cons]

theorem insert_pruned (l : Library) (g : Graph) :
    (l.pruned compiler).insert (g.pruned compiler) = (l.insert g).pruned compiler :=
  congrArg Library.mk (put_map (Graph.pruned compiler) g.id g l.entries)

theorem foldl_insert_pruned (gs : List Graph) (l : Library) :
    (gs.map (Graph.pruned compiler)).foldl insert (l.pruned compiler) =
      (gs.foldl insert l).pruned compiler := by
  induction gs generalizing l with
  | nil => rfl
  | cons g gs ih => rw [List.map_cons, List.foldl_cons, insert_pruned, ih, List.foldl_cons]

theorem ofGraphs_pruned (gs : List Graph) :
    ofGraphs (gs.map (Graph.pruned compiler)) = (ofGraphs gs).pruned compiler :=
  foldl_insert_pruned gs empty

theorem keyed_foldl_insert (gs : List Graph) (hl : l.Keyed) : (gs.foldl insert l).Keyed := by
  induction gs generalizing l with
  | nil => exact hl
  | cons g gs ih => exact ih (keyed_insert hl g)

theorem keyed_ofGraphs (gs : List Graph) : (ofGraphs gs).Keyed :=
  keyed_foldl_insert gs keyed_empty

theorem mem_foldl_insert {gs : List Graph} {entry : Uuid × Graph}
    (h : entry ∈ (gs.foldl insert l).entries) : entry ∈ l.entries ∨ entry.2 ∈ gs := by
  induction gs generalizing l with
  | nil => exact .inl h
  | cons g gs ih =>
    rcases ih h with hold | hnew
    · rcases mem_put hold with rfl | hold
      · exact .inr List.mem_cons_self
      · exact .inl hold
    · exact .inr (List.mem_cons_of_mem g hnew)

theorem Keyed.pruned (hl : l.Keyed) (compiler : Compiler) : (l.pruned compiler).Keyed := by
  intro entry hentry
  obtain ⟨old, hold, rfl⟩ := List.mem_map.mp hentry
  exact hl old hold

/-- Every graph starts with a start node. -/
def Started (l : Library) : Prop := ∀ key g, l.get? key = some g → g.start.kind = .start

theorem started_ofGraphs {gs : List Graph} (h : ∀ g ∈ gs, g.Authored) :
    (ofGraphs gs).Started := by
  intro key g hg
  obtain ⟨before, after, hentries, _⟩ := List.lookup_eq_some_iff.mp hg
  have hmem : (key, g) ∈ (gs.foldl insert empty).entries := by
    rw [show (gs.foldl insert empty).entries = before ++ (key, g) :: after from hentries]
    simp
  rcases mem_foldl_insert hmem with hold | hgs
  · simp [empty] at hold
  · exact (h g hgs).arranged.start

theorem get?_of_pruned {key : Uuid} {h : Graph} (hh : (l.pruned compiler).get? key = some h) :
    ∃ g, l.get? key = some g ∧ h = g.pruned compiler := by
  rw [get?_pruned] at hh
  obtain ⟨g, hg, rfl⟩ := Option.map_eq_some_iff.mp hh
  exact ⟨g, hg, rfl⟩

end

end Library

section
variable {compiler : Compiler} {l : Library} {root : Uuid}

theorem Reachable.of_pruned (hl : l.Started) {key id : Uuid}
    (h : Reachable (l.pruned compiler) root key id) : Reachable l root key id := by
  induction h with
  | root hpruned hfirst =>
    obtain ⟨g, hg, rfl⟩ := Library.get?_of_pruned hpruned
    rw [Graph.entry?_pruned (hl _ g hg)] at hfirst
    exact .root hg hfirst
  | passes _ hpruned hpass ih =>
    obtain ⟨g, hg, rfl⟩ := Library.get?_of_pruned hpruned
    exact .passes ih hg hpass.of_pruned
  | calls _ hpruned hnode hkind hcalled hfirst ih =>
    obtain ⟨g, hg, rfl⟩ := Library.get?_of_pruned hpruned
    obtain ⟨k, hk, rfl⟩ := Library.get?_of_pruned hcalled
    rw [Graph.entry?_pruned (hl _ k hk)] at hfirst
    exact .calls ih hg hnode hkind hk hfirst

theorem Called.of_pruned (hl : l.Started) {key : Uuid}
    (h : Called (l.pruned compiler) root key) : Called l root key := by
  cases h with
  | root => exact .root
  | node ha hpruned hnode hkind =>
    obtain ⟨g, hg, rfl⟩ := Library.get?_of_pruned hpruned
    exact .node (ha.of_pruned hl) hg hnode hkind

end

end Fabula
