import Mathlib.Logic.Relation
import Fabula.Graph.Library

/-!
# Routes

Where control goes along the connections of a graph. A connection leads on if its target is there
and is not a start; of the connections that leave a node by one outlet the first that leads on
counts. A library is read from a root: what is reachable there is its entry, whatever a route leads
to, and the entry of every graph that a reachable subgraph node names.
-/

namespace Fabula

namespace Graph

/-- Whether a connection may lead to a node. -/
def receives (g : Graph) (id : Uuid) : Bool := (g.node? id).any fun n => n.kind != .start

/-- Where the first of the connections leads that leaves by an outlet and leads on. -/
def route? (g : Graph) (cs : List Connection) (outlet : String) : Option Uuid :=
  (cs.find? fun c => c.outlet == outlet && g.receives c.target).map (·.target)

/-- The node to which an outlet of a node leads. -/
def next? (g : Graph) (id : Uuid) (outlet : String) : Option Uuid :=
  g.route? (g.leaving id) outlet

/-- The target of the first default connection of the start node, if it leads on. -/
def entry? (g : Graph) : Option Uuid :=
  (((g.leaving g.start.id).find? Connection.isDefault).map (·.target)).filter g.receives

/-- Control passes from a node to another. It does not pass beyond a finish. -/
def Passes (g : Graph) (a b : Uuid) : Prop :=
  (∃ n, g.node? a = some n ∧ n.kind ≠ .finish) ∧ ∃ outlet, g.next? a outlet = some b

section
variable {g : Graph} {id : Uuid}

theorem receives_iff : g.receives id = true ↔ ∃ n, g.node? id = some n ∧ n.kind ≠ .start := by
  unfold receives
  cases g.node? id <;> simp

theorem route?_concat (cs : List Connection) (c : Connection) (outlet : String) :
    g.route? (cs ++ [c]) outlet = (g.route? cs outlet).or
      (if c.outlet = outlet ∧ g.receives c.target = true then some c.target else none) := by
  simp only [route?, List.find?_append, Option.map_or, List.find?_singleton, Bool.and_eq_true,
    beq_iff_eq, apply_ite (Option.map Connection.target), Option.map_some, Option.map_none]

theorem route?_concat_of_taken {cs : List Connection} {c : Connection}
    (h : (g.route? cs c.outlet).isSome = true) (outlet : String) :
    g.route? (cs ++ [c]) outlet = g.route? cs outlet := by
  rw [route?_concat]
  by_cases hout : c.outlet = outlet
  · subst hout
    exact Option.or_of_isSome h
  · simp [hout]

theorem route?_concat_of_dangling {c : Connection} (h : g.receives c.target = false)
    (cs : List Connection) (outlet : String) :
    g.route? (cs ++ [c]) outlet = g.route? cs outlet := by
  simp [route?_concat, h]

/-- A connection counts if none before it leaves by its outlet and leads on. -/
theorem next?_of_first {cs rest : List Connection} {c : Connection}
    (hsplit : g.leaving id = cs ++ c :: rest) (hfree : (g.route? cs c.outlet).isSome = false)
    (hreceives : g.receives c.target = true) : g.next? id c.outlet = some c.target := by
  have hfind : cs.find? (fun d => d.outlet == c.outlet && g.receives d.target) = none := by
    simpa [route?] using hfree
  rw [next?, route?, hsplit, List.find?_append, hfind]
  simp [hreceives]

end

end Graph

theorem Library.Keyed.id_eq {l : Library} (hl : l.Keyed) {id : Uuid} {g : Graph}
    (h : l.get? id = some g) : g.id = id := by
  obtain ⟨before, after, hentries, _⟩ := List.lookup_eq_some_iff.mp h
  exact (hl (id, g) (by rw [hentries]; simp)).symm

section
variable (l : Library) (root : Uuid)

/-- The nodes that can be reached from the root: the graph of each and its id. -/
inductive Reachable : Uuid → Uuid → Prop
  | root {g : Graph} {first : Uuid} : l.get? root = some g → g.entry? = some first →
      Reachable root first
  | passes {key a b : Uuid} {g : Graph} : Reachable key a → l.get? key = some g →
      g.Passes a b → Reachable key b
  | calls {key a called first : Uuid} {g h : Graph} {n : Node} : Reachable key a →
      l.get? key = some g → g.node? a = some n → n.kind = .subgraph called →
      l.get? called = some h → h.entry? = some first → Reachable called first

/-- The root, and the graphs that reachable subgraph nodes name. -/
inductive Called : Uuid → Prop
  | root : Called root
  | node {key a called : Uuid} {g : Graph} {n : Node} : Reachable l root key a →
      l.get? key = some g → g.node? a = some n → n.kind = .subgraph called → Called called

end

section
variable {l : Library} {root key first : Uuid} {g : Graph}

theorem Reachable.trans {id : Uuid} (hg : l.get? key = some g)
    (hfirst : Reachable l root key first) (h : Relation.ReflTransGen g.Passes first id) :
    Reachable l root key id := by
  induction h with
  | refl => exact hfirst
  | tail _ hpass ih => exact .passes ih hg hpass

theorem Called.reachable (h : Called l root key) (hg : l.get? key = some g)
    (hfirst : g.entry? = some first) : Reachable l root key first := by
  cases h with
  | root => exact .root hg hfirst
  | node ha hcaller hnode hkind => exact .calls ha hcaller hnode hkind hg hfirst

end

end Fabula
