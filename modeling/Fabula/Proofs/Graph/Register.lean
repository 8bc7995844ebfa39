import Mathlib.Data.List.Nodup
import Fabula.Proofs.Graph.Edits

/-!
# The register of nodes

Adding a node does not look whether its id is in use. While every node that is added brings an id
that no node of the graph has, and only then, the ids are distinct after every edit; a graph is then
a register of nodes by their ids, and a look-up, a move or a removal is about one node.
-/

namespace Fabula.Graph

/-- The nodes that are added in order bring ids that are not in use. A terminal ends the list. -/
def FreshAll (g : Graph) : List Node → Prop
  | [] => True
  | n :: rest =>
    match g.addNode n with
    | .ok h => n.id ∉ g.ids ∧ FreshAll h rest
    | .error _ => True

/-- An edit that adds nodes brings ids that are not in use. -/
def Fresh (g : Graph) : Edit → Prop
  | .add n => FreshAll g [n]
  | .addAll ns => FreshAll g ns
  | _ => True

def FreshEdits (g : Graph) : List Edit → Prop
  | [] => True
  | e :: rest => Fresh g e ∧ FreshEdits (g.edit e) rest

/-- Nodes by their ids. -/
abbrev Register := Uuid → Option Node

namespace Register

variable (r : Register)

def enter (n : Node) : Register := fun i => if i = n.id then some n else r i

/-- Nodes enter in order; a terminal ends the list. -/
def enterAll (r : Register) : List Node → Register
  | [] => r
  | n :: rest => if n.isTerminal then r else (r.enter n).enterAll rest

/-- Without the nodes, other than terminals, that satisfy `p`. -/
def strike (p : Node → Bool) : Register := fun i => (r i).filter fun n => n.isTerminal || !p n

def relocate (id : Uuid) (position : Position) : Register := fun i =>
  if i = id then (r i).map (Node.moved position) else r i

/-- What an edit is to the register. -/
def edit : Edit → Register
  | .add n => r.enterAll [n]
  | .addAll ns => r.enterAll ns
  | .remove id => r.strike fun n => n.id == id
  | .removeWhere p => r.strike p
  | .move id position => r.relocate id position
  | .connect _ => r
  | .disconnect _ => r
  | .prune _ => r

def editAll (edits : List Edit) : Register := edits.foldl edit r

end Register

section
variable {bare g h : Graph} {n : Node} {id i : Uuid}

theorem nodes_perm_of_addNode (hadd : g.addNode n = .ok h) : h.nodes.Perm (n :: g.nodes) := by
  have hfront : (n :: g.nodes).Perm (g.start :: g.finish :: n :: (g.stories ++ g.subgraphs)) :=
    (List.Perm.swap _ _ _).trans ((List.Perm.swap _ _ _).cons _)
  refine List.Perm.trans ?_ hfront.symm
  rcases addNode_eq_ok hadd with ⟨_, rfl⟩ | ⟨_, rfl⟩
  · rw [nodes, List.append_assoc, List.singleton_append]
    exact (List.perm_middle.cons _).cons _
  · rw [nodes, ← List.append_assoc]
    exact ((List.perm_append_singleton _ _).cons _).cons _

theorem mem_nodes_of_addNode {m : Node} (hadd : g.addNode n = .ok h) :
    m ∈ h.nodes ↔ m = n ∨ m ∈ g.nodes := by
  rw [(nodes_perm_of_addNode hadd).mem_iff, List.mem_cons]

theorem nodup_ids_of_addNode (hadd : g.addNode n = .ok h) :
    h.ids.Nodup ↔ n.id ∉ g.ids ∧ g.ids.Nodup := by
  have hperm : h.ids.Perm (n.id :: g.ids) := (nodes_perm_of_addNode hadd).map Node.id
  rw [hperm.nodup_iff, List.nodup_cons]

theorem nodup_ids_addNodes (ns : List Node) :
    (g.addNodes ns).2.ids.Nodup ↔ g.ids.Nodup ∧ FreshAll g ns := by
  induction ns generalizing g with
  | nil => simp [addNodes, FreshAll]
  | cons n rest ih =>
    rw [addNodes, FreshAll]
    cases hadd : g.addNode n with
    | error e => simp
    | ok h =>
      rw [ih, nodup_ids_of_addNode hadd]
      constructor
      · rintro ⟨⟨hnew, hg⟩, hrest⟩
        exact ⟨hg, hnew, hrest⟩
      · rintro ⟨hg, hnew, hrest⟩
        exact ⟨⟨hnew, hg⟩, hrest⟩

theorem edit_add (g : Graph) (n : Node) : g.edit (.add n) = g.edit (.addAll [n]) := by
  rw [edit, edit, addNodes]
  cases g.addNode n <;> rfl

theorem nodes_edit_remove (hg : g.Arranged) (id : Uuid) :
    (g.edit (.remove id)).nodes = g.nodes.filter fun n => n.isTerminal || !(n.id == id) := by
  rw [edit]
  cases hremove : g.removeNode id with
  | some removed =>
    obtain ⟨_, _, hrest⟩ := removeNode_eq_some hremove
    rw [Option.map_some, Option.getD_some, hrest, nodes_without hg]
  | none =>
    rw [Option.map_none, Option.getD_none, eq_comm, List.filter_eq_self]
    have hnone : ∀ n ∈ g.stories ++ g.subgraphs, (n.id == id) = false := by
      have hempty := List.head?_eq_none_iff.mp (Option.map_eq_none_iff.mp hremove)
      rw [← List.filter_append, List.filter_eq_nil_iff] at hempty
      exact fun n hn => Bool.eq_false_iff.mpr (hempty n hn)
    intro n hn
    rcases mem_nodes.mp hn with rfl | rfl | hn | hn
    · simp [Node.isTerminal, hg.start]
    · simp [Node.isTerminal, hg.finish]
    · simp [hnone n (List.mem_append_left _ hn)]
    · simp [hnone n (List.mem_append_right _ hn)]

theorem nodes_edit_removeWhere (hg : g.Arranged) (p : Node → Bool) :
    (g.edit (.removeWhere p)).nodes = g.nodes.filter fun n => n.isTerminal || !p n := by
  rw [edit, removeWhere_eq, nodes_without hg]

theorem updateFirst_of_not_mem {f : Node → Node} {ns : List Node} (hid : id ∉ ns.map Node.id) :
    updateFirst id f ns = ns := by
  induction ns with
  | nil => rfl
  | cons n rest ih =>
    rw [List.map_cons, List.mem_cons, not_or] at hid
    rw [updateFirst, if_neg (Ne.symm hid.1), ih hid.2]

theorem not_mem_ids_of_moveNode {position : Position} {e : GraphError}
    (hmove : g.moveNode id position = .error e) : id ∉ g.ids := by
  unfold moveNode at hmove
  dsimp only at hmove
  split at hmove
  · cases hmove
  split at hmove
  · cases hmove
  split at hmove
  · cases hmove
  split at hmove
  · cases hmove
  rename_i hstart hfinish hstories hsubgraphs
  rw [ids, List.mem_map]
  rintro ⟨n, hn, rfl⟩
  rcases mem_nodes.mp hn with rfl | rfl | hn | hn
  · exact hstart rfl
  · exact hfinish rfl
  · exact hstories (List.any_eq_true.mpr ⟨n, hn, beq_self_eq_true _⟩)
  · exact hsubgraphs (List.any_eq_true.mpr ⟨n, hn, beq_self_eq_true _⟩)

theorem nodes_edit_move (g : Graph) (id : Uuid) (position : Position) :
    (g.edit (.move id position)).nodes = updateFirst id (Node.moved position) g.nodes := by
  rw [edit]
  cases hmove : g.moveNode id position with
  | ok h => exact nodes_of_moveNode hmove
  | error e =>
    exact (updateFirst_of_not_mem (not_mem_ids_of_moveNode hmove)).symm

theorem nodes_edit_connect (g : Graph) (c : Connection) :
    (g.edit (.connect c)).nodes = g.nodes := by
  obtain ⟨cs, hcs⟩ := exists_connections_of_tryConnect g c
  rw [edit, hcs]
  rfl

theorem nodup_ids_edit (hg : g.Arranged) (hnodup : g.ids.Nodup) (e : Edit) :
    (g.edit e).ids.Nodup ↔ Fresh g e := by
  have hfiltered : ∀ {q : Node → Bool}, (g.edit e).nodes = g.nodes.filter q →
      (g.edit e).ids.Nodup := by
    intro q hnodes
    rw [ids, hnodes]
    exact (List.filter_sublist.map Node.id).nodup hnodup
  cases e with
  | add n => rw [edit_add, Fresh, edit, nodup_ids_addNodes, and_iff_right hnodup]
  | addAll ns => rw [Fresh, edit, nodup_ids_addNodes, and_iff_right hnodup]
  | remove id => exact iff_of_true (hfiltered (nodes_edit_remove hg id)) trivial
  | removeWhere p => exact iff_of_true (hfiltered (nodes_edit_removeWhere hg p)) trivial
  | move id position =>
    refine iff_of_true ?_ trivial
    rw [ids, nodes_edit_move, map_updateFirst (Node.moved_id position)]
    exact hnodup
  | connect c =>
    refine iff_of_true ?_ trivial
    rw [ids, nodes_edit_connect]
    exact hnodup
  | disconnect c => exact iff_of_true hnodup trivial
  | prune compiler => exact iff_of_true hnodup trivial

/-- The ids are distinct after every edit just when every edit brings fresh ids. -/
theorem nodup_ids_editAll (hg : Sound bare g) (edits : List Edit) :
    (∀ k, (g.editAll (edits.take k)).ids.Nodup) ↔ g.ids.Nodup ∧ FreshEdits g edits := by
  induction edits generalizing g with
  | nil => simp [editAll, FreshEdits]
  | cons e rest ih =>
    rw [FreshEdits]
    constructor
    · intro hall
      have hnodup : g.ids.Nodup := hall 0
      have hrest := (ih (hg.edit e)).mp fun k => hall (k + 1)
      exact ⟨hnodup, (nodup_ids_edit hg.arranged hnodup e).mp hrest.1, hrest.2⟩
    · rintro ⟨hnodup, hfresh, hrest⟩ k
      cases k with
      | zero => exact hnodup
      | succ k =>
        exact (ih (hg.edit e)).mpr ⟨(nodup_ids_edit hg.arranged hnodup e).mpr hfresh, hrest⟩ k

theorem node?_eq_some_iff (hnodup : g.ids.Nodup) : g.node? i = some n ↔ n ∈ g.nodes ∧ n.id = i := by
  constructor
  · intro hfind
    exact ⟨List.mem_of_find?_eq_some hfind, node?_id hfind⟩
  · rintro ⟨hn, rfl⟩
    obtain ⟨m, hfind⟩ := Option.isSome_iff_exists.mp (node?_isSome_iff.mpr ⟨n, hn, rfl⟩)
    have hsame : m = n := List.inj_on_of_nodup_map hnodup (List.mem_of_find?_eq_some hfind) hn
      (node?_id hfind)
    rw [hfind, hsame]

theorem node?_of_filter {q : Node → Bool} (hnodup : g.ids.Nodup)
    (hnodes : h.nodes = g.nodes.filter q) : h.node? i = (g.node? i).filter q := by
  have hkept : h.ids.Nodup := by
    rw [ids, hnodes]
    exact (List.filter_sublist.map Node.id).nodup hnodup
  ext n
  rw [node?_eq_some_iff hkept, hnodes, List.mem_filter, Option.filter_eq_some_iff,
    node?_eq_some_iff hnodup, and_right_comm]

theorem node?_of_addNode (hnew : n.id ∉ g.ids) (hnodup : g.ids.Nodup) (hadd : g.addNode n = .ok h) :
    h.node? i = Register.enter g.node? n i := by
  have hdistinct := (nodup_ids_of_addNode hadd).mpr ⟨hnew, hnodup⟩
  ext m
  rw [node?_eq_some_iff hdistinct, mem_nodes_of_addNode hadd, Register.enter]
  split
  · rename_i hi
    subst hi
    constructor
    · rintro ⟨rfl | hm, hid⟩
      · rfl
      · exact absurd (hid ▸ List.mem_map_of_mem hm) hnew
    · rintro ⟨⟩
      exact ⟨.inl rfl, rfl⟩
  · rename_i hi
    rw [node?_eq_some_iff hnodup]
    constructor
    · rintro ⟨rfl | hm, hid⟩
      · exact absurd hid.symm hi
      · exact ⟨hm, hid⟩
    · exact fun ⟨hm, hid⟩ => ⟨.inr hm, hid⟩

theorem isTerminal_of_addNode {e : GraphError} (hadd : g.addNode n = .error e) :
    n.isTerminal = true := by
  unfold addNode at hadd
  unfold Node.isTerminal
  cases hkind : n.kind with
  | start | finish => rfl
  | story s | subgraph graph => simp [hkind] at hadd

theorem Register.enterAll_of_addNodes {ns : List Node} (hnodup : g.ids.Nodup)
    (hfresh : FreshAll g ns) : (g.addNodes ns).2.node? = Register.enterAll g.node? ns := by
  induction ns generalizing g with
  | nil => rfl
  | cons n rest ih =>
    rw [FreshAll] at hfresh
    rw [addNodes, Register.enterAll]
    cases hadd : g.addNode n with
    | error e =>
      rw [if_pos (isTerminal_of_addNode hadd)]
    | ok h =>
      rw [hadd] at hfresh
      have hplain : n.isTerminal = false := by
        rcases addNode_eq_ok hadd with ⟨hn, _⟩ | ⟨hn, _⟩
        · exact isTerminal_of_isStory hn
        · exact isTerminal_of_isSubgraph hn
      have hentered : h.node? = Register.enter g.node? n :=
        funext fun i => node?_of_addNode hfresh.1 hnodup hadd
      rw [if_neg (by simp [hplain]), ← hentered]
      exact ih ((nodup_ids_of_addNode hadd).mpr ⟨hfresh.1, hnodup⟩) hfresh.2

theorem updateFirst_eq_map {f : Node → Node} {ns : List Node} (hnodup : (ns.map Node.id).Nodup) :
    updateFirst id f ns = ns.map fun m => if m.id = id then f m else m := by
  induction ns with
  | nil => rfl
  | cons m rest ih =>
    rw [List.map_cons, List.nodup_cons] at hnodup
    rw [updateFirst, List.map_cons, ← ih hnodup.2]
    split
    · rename_i hid
      rw [updateFirst_of_not_mem (hid ▸ hnodup.1)]
    · rfl

theorem node?_of_move {position : Position} (hnodup : g.ids.Nodup)
    (hnodes : h.nodes = updateFirst id (Node.moved position) g.nodes) :
    h.node? i = Register.relocate g.node? id position i := by
  have hsame : ∀ m : Node, ((if m.id = id then m.moved position else m).id == i) = (m.id == i) := by
    intro m
    split <;> rfl
  rw [node?, hnodes, updateFirst_eq_map hnodup, List.find?_map]
  simp only [Function.comp_def, hsame]
  change (g.node? i).map _ = _
  cases hfind : g.node? i with
  | none => simp [Register.relocate, hfind]
  | some m =>
    obtain rfl := node?_id hfind
    rw [Register.relocate, hfind, Option.map_some, Option.map_some]
    split <;> rfl

theorem Register.edit_of_fresh {e : Edit} (hg : g.Arranged) (hnodup : g.ids.Nodup)
    (hfresh : Fresh g e) : (g.edit e).node? = Register.edit g.node? e := by
  cases e with
  | add n =>
    rw [edit_add]
    exact Register.enterAll_of_addNodes hnodup hfresh
  | addAll ns => exact Register.enterAll_of_addNodes hnodup hfresh
  | remove id => exact funext fun i => node?_of_filter hnodup (nodes_edit_remove hg id)
  | removeWhere p => exact funext fun i => node?_of_filter hnodup (nodes_edit_removeWhere hg p)
  | move id position =>
    exact funext fun i => node?_of_move hnodup (nodes_edit_move g id position)
  | connect c =>
    funext i
    rw [node?, nodes_edit_connect]
    rfl
  | disconnect c => rfl
  | prune compiler => rfl

theorem Register.editAll_of_fresh {edits : List Edit} (hg : Sound bare g) (hnodup : g.ids.Nodup)
    (hfresh : FreshEdits g edits) : (g.editAll edits).node? = Register.editAll g.node? edits := by
  induction edits generalizing g with
  | nil => rfl
  | cons e rest ih =>
    have hedited := Register.edit_of_fresh hg.arranged hnodup hfresh.1
    have hrest := ih (hg.edit e) ((nodup_ids_edit hg.arranged hnodup e).mpr hfresh.1) hfresh.2
    change ((g.edit e).editAll rest).node? = Register.editAll (Register.edit g.node? e) rest
    rw [hrest, hedited]

theorem mem_ids_of_moveNode {position : Position} (hmove : g.moveNode id position = .ok h) :
    id ∈ g.ids := by
  rw [ids, List.mem_map]
  rcases moveNode_cases hmove with
    ⟨hid, _⟩ | ⟨_, ⟨hid, _⟩ | ⟨_, ⟨hany, _⟩ | ⟨_, hany, _⟩⟩⟩
  · exact ⟨_, mem_nodes.mpr (.inl rfl), hid⟩
  · exact ⟨_, mem_nodes.mpr (.inr (.inl rfl)), hid⟩
  · obtain ⟨n, hn, hid⟩ := List.any_eq_true.mp hany
    exact ⟨n, mem_nodes.mpr (.inr (.inr (.inl hn))), eq_of_beq hid⟩
  · obtain ⟨n, hn, hid⟩ := List.any_eq_true.mp hany
    exact ⟨n, mem_nodes.mpr (.inr (.inr (.inr hn))), eq_of_beq hid⟩

theorem moveNode_of_nodup {position : Position} (hnodup : g.ids.Nodup)
    (hmove : g.moveNode id position = .ok h) : ∃ n, g.node? id = some n ∧
      h.nodes = g.nodes.map fun m => if m = n then m.moved position else m := by
  obtain ⟨n, hfind⟩ := Option.isSome_iff_exists.mp (mem_ids.mp (mem_ids_of_moveNode hmove))
  obtain ⟨hn, hid⟩ := (node?_eq_some_iff hnodup).mp hfind
  refine ⟨n, hfind, ?_⟩
  rw [nodes_of_moveNode hmove, updateFirst_eq_map hnodup]
  refine List.map_congr_left fun m hm => ?_
  have hsame : m.id = id ↔ m = n := by
    rw [← hid]
    exact ⟨List.inj_on_of_nodup_map hnodup hm hn, congrArg Node.id⟩
  simp only [hsame]

theorem removeNode_of_nodup (hg : g.Arranged) (hnodup : g.ids.Nodup)
    (hremove : g.removeNode id = some (n, h)) :
    g.node? id = some n ∧ h.nodes = g.nodes.erase n := by
  obtain ⟨hn, hid, rfl⟩ := removeNode_eq_some hremove
  have hmem : n ∈ g.nodes := List.mem_cons_of_mem _ (List.mem_cons_of_mem _ hn)
  have hplain : n.isTerminal = false := by
    rcases List.mem_append.mp hn with hn | hn
    · exact isTerminal_of_isStory (hg.stories n hn)
    · exact isTerminal_of_isSubgraph (hg.subgraphs n hn)
  refine ⟨(node?_eq_some_iff hnodup).mpr ⟨hmem, hid⟩, ?_⟩
  rw [nodes_without hg, (List.Nodup.of_map _ hnodup).erase_eq_filter]
  refine List.filter_congr fun m hm => ?_
  by_cases hsame : m = n
  · simp [hsame, hid, hplain]
  · have hother : m.id ≠ id := fun h => hsame
      (List.inj_on_of_nodup_map hnodup hm hmem (h.trans hid.symm))
    rw [beq_eq_false_iff_ne.mpr hother, bne_iff_ne.mpr hsame, Bool.not_false, Bool.or_true]

theorem nodes_make (id : Option Uuid) (name : String) (supply : IdSupply) :
    (make id name supply).1.nodes = [(make id name supply).1.start, (make id name supply).1.finish] := by
  cases id <;> rfl

/-- A graph that starts bare has distinct ids after every edit just when every node that is added
brings an id that is not in use. Then it is the register that its edits describe, a move changes
the one node with the id, and a removal takes the one node that it answers and no other. -/
theorem registered_iff_fresh (id : Option Uuid) (name : String) (supply : IdSupply)
    (hends : (make id name supply).1.start.id ≠ (make id name supply).1.finish.id)
    (edits : List Edit) :
    let bare := (make id name supply).1
    let g := bare.editAll edits
    ((∀ k, (bare.editAll (edits.take k)).ids.Nodup) ↔ FreshEdits bare edits) ∧
      (FreshEdits bare edits →
        g.node? = Register.editAll bare.node? edits ∧
        (∀ i position h, g.moveNode i position = .ok h → ∃ n, g.node? i = some n ∧
          h.nodes = g.nodes.map fun m => if m = n then m.moved position else m) ∧
        ∀ i n h, g.removeNode i = some (n, h) → g.node? i = some n ∧
          h.nodes = g.nodes.erase n) := by
  intro bare g
  have hbare : Sound bare bare := sound_make id name supply
  have hnodup : bare.ids.Nodup := by
    rw [ids, nodes_make]
    simpa using hends
  have hiff := nodup_ids_editAll hbare edits
  rw [and_iff_right hnodup] at hiff
  refine ⟨hiff, fun hfresh => ?_⟩
  have hdistinct : g.ids.Nodup := by
    have hall := hiff.mpr hfresh edits.length
    rwa [List.take_length] at hall
  exact ⟨Register.editAll_of_fresh hbare hnodup hfresh,
    fun i position h => moveNode_of_nodup hdistinct,
    fun i n h => removeNode_of_nodup (hbare.editAll edits).arranged hdistinct⟩

end

def first : Node := .ofKind (.ofNat 9) (.story ⟨⟨"a", ""⟩, []⟩)

def second : Node := .ofKind (.ofNat 9) (.story ⟨⟨"b", ""⟩, []⟩)

def third : Node := .ofKind (.ofNat 7) (.subgraph (.ofNat 9))

/-- The first node goes before the second takes its id, and the graph is a register. -/
theorem registered_one_after_the_other :
    let bare := (make none "g" (.startingAt 1)).1
    let edits := [.add first, .add third, .remove (.ofNat 9), .add second, .move (.ofNat 7) .origin]
    bare.start.id ≠ bare.finish.id ∧ FreshEdits bare edits ∧
      (∀ k, (bare.editAll (edits.take k)).ids.Nodup) ∧
      (bare.editAll edits).node? (.ofNat 9) = some second ∧
      ∀ i n h, (bare.editAll edits).removeNode i = some (n, h) →
        (bare.editAll edits).node? i = some n ∧ h.nodes = (bare.editAll edits).nodes.erase n := by
  intro bare edits
  have hends : bare.start.id ≠ bare.finish.id := by decide
  have hfresh : FreshEdits bare edits :=
    ⟨⟨by decide, trivial⟩, ⟨by decide, trivial⟩, trivial, ⟨by decide, trivial⟩, trivial, trivial⟩
  obtain ⟨hiff, hregister⟩ := registered_iff_fresh none "g" (.startingAt 1) hends edits
  exact ⟨hends, hfresh, hiff.mpr hfresh, by decide, (hregister hfresh).2.2⟩

/-- A node enters under an id that is in use. Looking the id up finds only the first of the two,
and removing it takes both. -/
theorem second_under_the_same_id :
    let bare := (make none "g" (.startingAt 1)).1
    ∃ g h, bare.addNode first = .ok g ∧ g.addNode second = .ok h ∧ ¬h.ids.Nodup ∧
      second ∈ h.nodes ∧ h.node? second.id = some first ∧
      ∃ k, h.removeNode (.ofNat 9) = some (first, k) ∧ k.nodes = bare.nodes := by
  intro bare
  exact ⟨_, _, rfl, rfl, by decide, by decide, by decide, _, rfl, rfl⟩

end Fabula.Graph
