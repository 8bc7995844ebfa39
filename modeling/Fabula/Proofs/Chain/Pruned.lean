import Fabula.Proofs.Chain.Walker
import Fabula.Proofs.Graph.Pruned

/-!
# Walking pruned graphs

A walker in a pruned library meets the same at every spot and goes the same ways, as long as it
leaves a story by the default outlet or by a label of the story's script. A chain can be built from
the pruned library wherever one can be built from the library.
-/

namespace Fabula

open Script (Compiler)

section
variable {compiler : Compiler} {l : Library}

namespace Library

/-- The story at a spot. -/
def story? (l : Library) (s : Spot) : Option StoryNode :=
  (l.get? s.graph).bind fun g => (s.node.bind g.node?).bind fun n =>
    match n.kind with
    | .story story => some story
    | _ => none

theorem story?_eq_some {s : Spot} {story : StoryNode} (h : l.story? s = some story) :
    ∃ g id n, l.get? s.graph = some g ∧ s.node = some id ∧ g.node? id = some n ∧
      n.kind = .story story := by
  obtain ⟨g, hg, h⟩ := Option.bind_eq_some_iff.mp h
  obtain ⟨n, hn, h⟩ := Option.bind_eq_some_iff.mp h
  obtain ⟨id, hid, hnode⟩ := Option.bind_eq_some_iff.mp hn
  refine ⟨g, id, n, hg, hid, hnode, ?_⟩
  split at h
  · rename_i hkind
    rw [hkind, Option.some.inj h]
  · cases h

theorem story?_pruned (s : Spot) : (l.pruned compiler).story? s = l.story? s := by
  rw [story?, story?, get?_pruned]
  cases l.get? s.graph <;> rfl

theorem entrance_pruned (hl : l.Started) (key : Uuid) :
    (l.pruned compiler).entrance key = l.entrance key := by
  rw [entrance, entrance, get?_pruned]
  cases hg : l.get? key with
  | none => rfl
  | some g => rw [Option.map_some, Option.bind_some, Option.bind_some,
      Graph.entry?_pruned (hl key g hg)]

/-- An outlet that its node has leads on as before. -/
theorem onward?_pruned {s : Spot} {g : Graph} {id : Uuid} {n : Node} {outlet : String}
    (hg : l.get? s.graph = some g) (hs : s.node = some id) (hnode : g.node? id = some n)
    (houtlet : outlet ∈ Graph.outletsOf compiler n.kind) :
    (l.pruned compiler).onward? s outlet = l.onward? s outlet := by
  rw [onward?, onward?, get?_pruned, hg, hs]
  simp only [Option.map_some, Option.bind_some, Graph.next?_pruned_of_mem hnode houtlet]

theorem encounter_pruned (s : Spot) :
    (l.pruned compiler).encounter compiler s = l.encounter compiler s := by
  rw [encounter, encounter, get?_pruned]
  cases hg : l.get? s.graph with
  | none => rfl
  | some g =>
    dsimp only [Option.map_some]
    cases hs : s.node with
    | none => rfl
    | some id =>
      simp only [Option.bind_some, Graph.pruned_node?]
      cases hnode : g.node? id with
      | none => rfl
      | some n =>
        dsimp only [Option.map_some]
        cases hkind : n.kind with
        | start | finish => rfl
        | story story => rfl
        | subgraph called =>
          dsimp only
          rw [onward?_pruned hg hs hnode (by simp [hkind, Graph.outletsOf])]

end Library

namespace Walker

theorem goTo_pruned (hl : l.Started) (hops : Nat) (s : Spot) (w : Walker) :
    goTo compiler (l.pruned compiler) hops s w = goTo compiler l hops s w := by
  induction hops generalizing s w with
  | zero => rfl
  | succ hops ih =>
    simp only [goTo, Library.encounter_pruned, Library.entrance_pruned hl, ih]

theorem setOut_pruned (hl : l.Started) (root : Uuid) :
    setOut compiler (l.pruned compiler) root = setOut compiler l root := by
  rw [setOut, setOut, goTo_pruned hl, Library.entrance_pruned hl]

/-- A walker leaves a story as before by the outlets that the story has. -/
theorem leaveBy_pruned (hl : l.Started) {w : Walker} {story : StoryNode} {outlet : String}
    (hstory : l.story? w.current = some story)
    (houtlet : outlet ∈ Graph.outletsOf compiler (.story story)) :
    w.leaveBy compiler (l.pruned compiler) outlet = w.leaveBy compiler l outlet := by
  obtain ⟨g, id, n, hg, hs, hnode, hkind⟩ := Library.story?_eq_some hstory
  rw [leaveBy, leaveBy, Library.onward?_pruned hg hs hnode (by rwa [hkind])]
  simp only [goTo_pruned hl]

end Walker

namespace Chain

variable {root : Uuid}

theorem Buildable.pruned (h : Buildable compiler l root) (hl : l.Started) :
    Buildable compiler (l.pruned compiler) root := by
  constructor
  · intro key hkey
    have hpresent := h.present key (hkey.of_pruned hl)
    rwa [Library.get?_pruned, Option.isSome_map]
  · intro key id g d s hid hg hnode hkind
    obtain ⟨old, hold, rfl⟩ := Library.get?_of_pruned hg
    exact h.compiles key id old d s (hid.of_pruned hl) hold hnode hkind

end Chain

end

end Fabula
