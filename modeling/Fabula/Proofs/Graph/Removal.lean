import Mathlib.Data.List.Nodup
import Fabula.Proofs.Graph.Edits

/-!
# Removal

Removing all nodes that satisfy a predicate filters the nodes by the predicate and the connections
by the nodes that go; removing one node filters both by its id. When ids are distinct the two come
to the same: to remove the nodes one after the other, in whatever order, leaves the graph that is
left when they are removed at once.
-/

namespace Fabula.Graph

/-- The story and the subgraph nodes, which alone can be removed. -/
def removable (g : Graph) : List Node := g.stories ++ g.subgraphs

/-- Removes nodes one after the other by their ids, up to an id that no such node has. The answers
stand in the order of the calls. -/
def removeEach (g : Graph) : List Uuid → Option (List Node × Graph)
  | [] => some ([], g)
  | id :: rest => do
    let (n, h) ← g.removeNode id
    let (ns, k) ← h.removeEach rest
    return (n :: ns, k)

/-- The graph without the given nodes and what touches them. -/
def lacking (g : Graph) (ns : List Node) : Graph :=
  g.without (fun m => ns.any fun n => m.id == n.id)
    (g.connections.filter fun c => !ns.any fun n => c.touches n.id)

section
variable {g : Graph} {n : Node}

theorem removable_without (p : Node → Bool) (cs : List Connection) :
    (g.without p cs).removable = g.removable.filter fun m => !p m :=
  (List.filter_append g.stories g.subgraphs).symm

theorem removable_sublist_nodes : g.removable.Sublist g.nodes :=
  ((List.Sublist.refl _).cons _).cons _

theorem lacking_nil : g.lacking [] = g := by
  simp [lacking, without]

theorem lacking_cons (n : Node) (ns : List Node) :
    (g.lacking [n]).lacking ns = g.lacking (n :: ns) := by
  simp [lacking, without, List.filter_filter, Bool.and_comm]

/-- With distinct ids a removal takes the one node that has the id. -/
theorem removeNode_eq_lacking (hnodup : (g.removable.map Node.id).Nodup) (hn : n ∈ g.removable) :
    g.removeNode n.id = some (n, g.lacking [n]) := by
  cases hremove : g.removeNode n.id with
  | none =>
    have hempty := List.head?_eq_none_iff.mp (Option.map_eq_none_iff.mp hremove)
    rw [← List.filter_append, List.filter_eq_nil_iff] at hempty
    exact absurd (beq_self_eq_true _) (hempty n hn)
  | some removed =>
    obtain ⟨m, h⟩ := removed
    obtain ⟨hm, hid, rfl⟩ := removeNode_eq_some hremove
    obtain rfl : m = n := List.inj_on_of_nodup_map hnodup hm hn hid
    simp [lacking]

-- By induction on the nodes that are still to go: those that went before are not among them.
theorem removeEach_eq_lacking {ns : List Node} (hnodup : (g.removable.map Node.id).Nodup)
    (hns : (ns.map Node.id).Nodup) (hsub : ns ⊆ g.removable) :
    g.removeEach (ns.map Node.id) = some (ns, g.lacking ns) := by
  induction ns generalizing g with
  | nil => rw [lacking_nil]; rfl
  | cons n rest ih =>
    rw [List.map_cons, List.nodup_cons] at hns
    have hleft : (g.lacking [n]).removable = g.removable.filter fun m => !(m.id == n.id) := by
      rw [lacking, removable_without]
      simp
    have hrest : rest ⊆ (g.lacking [n]).removable := by
      intro m hm
      rw [hleft, List.mem_filter]
      have hne : m.id ≠ n.id := by
        intro hsame
        exact hns.1 (hsame ▸ List.mem_map_of_mem hm)
      exact ⟨hsub (List.mem_cons_of_mem n hm), by simpa using hne⟩
    have hkept : ((g.lacking [n]).removable.map Node.id).Nodup := by
      rw [hleft]
      exact (List.filter_sublist.map Node.id).nodup hnodup
    have hfirst := removeNode_eq_lacking hnodup (hsub List.mem_cons_self)
    have hothers := ih hkept hns.2 hrest
    rw [lacking_cons] at hothers
    simp [removeEach, hfirst, hothers]

/-- Nodes with distinct ids satisfy the predicate just when they have the id of one that does. -/
theorem removeWhere_eq_lacking {p : Node → Bool} {ns : List Node}
    (hnodup : (g.removable.map Node.id).Nodup) (hns : ns.Perm (g.removable.filter p)) :
    (g.removeWhere p).2 = g.lacking ns := by
  have hany : ∀ m ∈ g.removable, (ns.any fun n => m.id == n.id) = p m := by
    intro m hm
    rw [Bool.eq_iff_iff, List.any_eq_true]
    constructor
    · rintro ⟨n, hn, hid⟩
      obtain ⟨hn, hp⟩ := List.mem_filter.mp (hns.mem_iff.mp hn)
      obtain rfl : m = n := List.inj_on_of_nodup_map hnodup hm hn (eq_of_beq hid)
      exact hp
    · intro hp
      exact ⟨m, hns.mem_iff.mpr (List.mem_filter.mpr ⟨hm, hp⟩), beq_self_eq_true _⟩
  have htouched : ∀ c : Connection, ((g.removable.filter p).any fun n => c.touches n.id) =
      ns.any fun n => c.touches n.id := by
    intro c
    exact (hns.any_eq).symm
  rw [removeWhere_eq, lacking, without, without]
  congr 1
  · apply List.filter_congr
    intro m hm
    rw [hany m (List.mem_append_left _ hm)]
  · apply List.filter_congr
    intro m hm
    rw [hany m (List.mem_append_right _ hm)]
  · apply List.filter_congr
    intro c _
    exact congrArg _ (htouched c)

end

/-- When ids are distinct, removing the nodes that satisfy a predicate counts the story and the
subgraph nodes that do, and leaves what is left when each of these is removed by its id, in any
order. Start and finish stay. -/
theorem removeWhere_one_by_one {g : Graph} (hnodup : g.ids.Nodup) (p : Node → Bool) :
    (g.removeWhere p).1 = g.removable.countP p ∧
    (∀ order : List Node, order.Perm (g.removable.filter p) →
      g.removeEach (order.map Node.id) = some (order, (g.removeWhere p).2)) ∧
    (g.removeWhere p).2.start = g.start ∧ (g.removeWhere p).2.finish = g.finish := by
  have hremovable : (g.removable.map Node.id).Nodup :=
    (removable_sublist_nodes.map Node.id).nodup hnodup
  refine ⟨?_, ?_, rfl, rfl⟩
  · rw [List.countP_eq_length_filter, removable, List.filter_append]
    rfl
  · intro order horder
    have hids : (order.map Node.id).Nodup := by
      rw [(horder.map Node.id).nodup_iff]
      exact (List.filter_sublist.map Node.id).nodup hremovable
    have hsub : order ⊆ g.removable := by
      intro n hn
      exact (List.mem_filter.mp (horder.mem_iff.mp hn)).1
    rw [removeEach_eq_lacking hremovable hids hsub, removeWhere_eq_lacking hremovable horder]

/-- From the start over a to b and the finish, and from b over a subgraph to the finish. -/
def terrace : Graph where
  id := .ofNat 1
  name := "terrace"
  start := .ofKind (.ofNat 2) .start
  finish := .ofKind (.ofNat 3) .finish
  stories := [.ofKind (.ofNat 4) (.story ⟨⟨"a", ""⟩, []⟩), .ofKind (.ofNat 5) (.story ⟨⟨"b", ""⟩, []⟩)]
  subgraphs := [.ofKind (.ofNat 6) (.subgraph (.ofNat 9))]
  connections := [(2, 4), (4, 5), (5, 6), (5, 3), (6, 3)].map fun (source, target) =>
    ⟨.ofNat source, defaultOutlet, .ofNat target, defaultOutlet⟩

/-- Everything but b is to go: the subgraph goes first and a second, or both at once. -/
theorem removeWhere_terrace :
    let p : Node → Bool := fun n => n.id != .ofNat 5
    let order : List Node := [.ofKind (.ofNat 6) (.subgraph (.ofNat 9)),
      .ofKind (.ofNat 4) (.story ⟨⟨"a", ""⟩, []⟩)]
    terrace.ids.Nodup ∧ p terrace.start = true ∧ order.Perm (terrace.removable.filter p) ∧
      (terrace.removeWhere p).1 = 2 ∧
      (terrace.removeWhere p).2.ids = [.ofNat 2, .ofNat 3, .ofNat 5] ∧
      (terrace.removeWhere p).2.connections =
        [⟨.ofNat 5, defaultOutlet, .ofNat 3, defaultOutlet⟩] ∧
      terrace.removeEach (order.map Node.id) = some (order, (terrace.removeWhere p).2) ∧
      (terrace.removeWhere p).2.start = terrace.start := by
  intro p order
  have hnodup : terrace.ids.Nodup := by decide
  have horder : order.Perm (terrace.removable.filter p) := by decide
  obtain ⟨hcount, hone, hstart, _⟩ := removeWhere_one_by_one hnodup p
  exact ⟨hnodup, by decide, horder, hcount.trans (by decide), by decide, by decide,
    hone order horder, hstart⟩

end Fabula.Graph
