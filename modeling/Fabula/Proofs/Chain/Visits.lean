import Fabula.Chain.Build
import Fabula.Proofs.Script.Search

/-!
# Building without bounds

`Visits`, `Flattens` and `Builds` describe how a chain is built when nothing bounds how far a visit
goes or how many graphs are taken from the queue. Every visit adds a node of the graph that was not
there before, and every graph taken from the queue is another graph of the library; so the bounds
that the functions count down are never met, and building comes to an end on every library.
-/

namespace Fabula.Chain

open Script (Compiler)

/-- The graph nodes of which chain nodes were built. -/
def ids (nodes : List ChainNode) : List Uuid := nodes.map ChainNode.node

@[simp] theorem ids_append (nodes more : List ChainNode) :
    ids (nodes ++ more) = ids nodes ++ ids more := List.map_append

@[simp] theorem ids_cons (n : ChainNode) (nodes : List ChainNode) :
    ids (n :: nodes) = n.node :: ids nodes := rfl

@[simp] theorem ids_nil : ids [] = [] := rfl

theorem ids_modify_addBranch (nodes : List ChainNode) (index : Nat) (outlet : String)
    (target : Target) : ids (nodes.modify index (addBranch outlet target)) = ids nodes := by
  unfold ids
  apply Script.map_modify_of_comp_eq
  intro n
  rfl

theorem getElem?_of_place? {nodes : List ChainNode} {id : Uuid} {index : Nat}
    (h : place? nodes id = some index) : (ids nodes)[index]? = some id := by
  obtain ⟨hlt, hid, _⟩ := List.findIdx?_eq_some_iff_getElem.mp h
  rw [ids, List.getElem?_map, List.getElem?_eq_getElem hlt, Option.map_some, eq_of_beq hid]

theorem place?_eq_none_iff {nodes : List ChainNode} {id : Uuid} :
    place? nodes id = none ↔ id ∉ ids nodes := by
  simp [place?, ids, List.findIdx?_eq_none_iff]

section
variable (compiler : Compiler) (graph : Graph)

mutual

/-- A visit of a node, as far as it goes. -/
inductive Visits : Uuid → List ChainNode → Visit → Prop
  | again {id : Uuid} {nodes : List ChainNode} {index : Nat} :
      place? nodes id = some index → Visits id nodes (.ok (some index, nodes))
  | missing {id : Uuid} {nodes : List ChainNode} :
      place? nodes id = none → graph.node? id = none → Visits id nodes (.ok (none, nodes))
  | refused {id : Uuid} {nodes : List ChainNode} {n : Node} {e : ChainError} :
      place? nodes id = none → graph.node? id = some n → kindOf compiler n = .error e →
      Visits id nodes (.error e)
  | start {id : Uuid} {nodes : List ChainNode} {n : Node} :
      place? nodes id = none → graph.node? id = some n → kindOf compiler n = .ok none →
      Visits id nodes (.ok (none, nodes))
  | finish {id : Uuid} {nodes : List ChainNode} {n : Node} :
      place? nodes id = none → graph.node? id = some n →
      kindOf compiler n = .ok (some .finish) →
      Visits id nodes (.ok (some nodes.length, nodes ++ [⟨id, .finish, []⟩]))
  | opens {id : Uuid} {nodes : List ChainNode} {n : Node} {kind : ChainNode.Kind}
      {r : Except ChainError (List ChainNode)} :
      place? nodes id = none → graph.node? id = some n → kindOf compiler n = .ok (some kind) →
      kind ≠ .finish →
      Follows nodes.length (graph.leaving id) (nodes ++ [⟨id, kind, []⟩]) r →
      Visits id nodes (r.map fun built => (some nodes.length, built))

/-- The visits along the connections of the node at an index. -/
inductive Follows : Nat → List Connection → List ChainNode →
    Except ChainError (List ChainNode) → Prop
  | done {index : Nat} {nodes : List ChainNode} : Follows index [] nodes (.ok nodes)
  | taken {index : Nat} {c : Connection} {rest : List Connection} {nodes : List ChainNode}
      {r : Except ChainError (List ChainNode)} :
      hasBranch nodes index c.outlet = true → Follows index rest nodes r →
      Follows index (c :: rest) nodes r
  | fails {index : Nat} {c : Connection} {rest : List Connection} {nodes : List ChainNode}
      {e : ChainError} :
      hasBranch nodes index c.outlet = false → Visits c.target nodes (.error e) →
      Follows index (c :: rest) nodes (.error e)
  | dangles {index : Nat} {c : Connection} {rest : List Connection}
      {nodes built : List ChainNode} {r : Except ChainError (List ChainNode)} :
      hasBranch nodes index c.outlet = false → Visits c.target nodes (.ok (none, built)) →
      Follows index rest built r → Follows index (c :: rest) nodes r
  | leads {index target : Nat} {c : Connection} {rest : List Connection}
      {nodes built : List ChainNode} {r : Except ChainError (List ChainNode)} :
      hasBranch nodes index c.outlet = false → Visits c.target nodes (.ok (some target, built)) →
      Follows index rest (built.modify index (addBranch c.outlet ⟨graph.id, target⟩)) r →
      Follows index (c :: rest) nodes r

end

/-- The nodes of one graph. -/
inductive Flattens : Except ChainError (List ChainNode) → Prop
  | empty : firstTarget? graph = none → Flattens (.ok [])
  | visits {first : Uuid} {r : Visit} : firstTarget? graph = some first →
      Visits compiler graph first [] r → Flattens (r.map Prod.snd)

end

/-- The graphs of a queue and those they name. -/
inductive Builds (compiler : Compiler) (library : Library) :
    List Uuid → List Uuid → List (Uuid × List ChainNode) →
      Except ChainError (List (Uuid × List ChainNode)) → Prop
  | done {seen : List Uuid} {done : List (Uuid × List ChainNode)} :
      Builds compiler library [] seen done (.ok done)
  | missing {id : Uuid} {queue seen : List Uuid} {done : List (Uuid × List ChainNode)} :
      library.get? id = none →
      Builds compiler library (id :: queue) seen done (.error (.missingGraph id))
  | fails {id : Uuid} {queue seen : List Uuid} {done : List (Uuid × List ChainNode)}
      {graph : Graph} {e : ChainError} :
      library.get? id = some graph → Flattens compiler graph (.error e) →
      Builds compiler library (id :: queue) seen done (.error e)
  | built {id : Uuid} {queue seen : List Uuid} {done : List (Uuid × List ChainNode)}
      {graph : Graph} {nodes : List ChainNode}
      {r : Except ChainError (List (Uuid × List ChainNode))} :
      library.get? id = some graph → Flattens compiler graph (.ok nodes) →
      Builds compiler library (queue ++ unseen seen (references nodes))
        (seen ++ unseen seen (references nodes)) (done ++ [(id, nodes)]) r →
      Builds compiler library (id :: queue) seen done r

/-- One more name taken leaves fewer names to take. -/
theorem length_filter_not_mem_lt {names before after : List Uuid} {id : Uuid}
    (hsub : before ⊆ after) (hid : id ∈ names) (hbefore : id ∉ before) (hafter : id ∈ after) :
    (names.filter fun other => other ∉ after).length <
      (names.filter fun other => other ∉ before).length := by
  have hfilter : (names.filter fun other => other ∉ after) =
      (names.filter fun other => other ∉ before).filter fun other => other ∉ after := by
    rw [List.filter_filter]
    apply List.filter_congr
    intro other _
    by_cases h : other ∈ before
    · simp [h, hsub h]
    · simp [h]
  rw [hfilter, List.length_filter_lt_length_iff_exists]
  exact ⟨id, List.mem_filter.mpr ⟨hid, by simpa using hbefore⟩, by simpa using hafter⟩

section
variable {compiler : Compiler} {graph : Graph}

mutual

theorem Visits.prefix_ids : ∀ {id : Uuid} {nodes : List ChainNode} {r : Visit},
    Visits compiler graph id nodes r → ∀ p, r = .ok p → ids nodes <+: ids p.2
  | _, _, _, .again _ => by rintro p ⟨⟩; exact List.prefix_rfl
  | _, _, _, .missing _ _ => by rintro p ⟨⟩; exact List.prefix_rfl
  | _, _, _, .refused _ _ _ => by rintro p ⟨⟩
  | _, _, _, .start _ _ _ => by rintro p ⟨⟩; exact List.prefix_rfl
  | _, _, _, .finish _ _ _ => by
    rintro p ⟨⟩
    rw [ids_append]
    exact List.prefix_append _ _
  | _, _, _, .opens (r := r) _ _ _ _ hf => by
    intro p hp
    have hbuilt := hf.prefix_ids
    cases r with
    | error e => simp [Except.map] at hp
    | ok built =>
      obtain rfl := Except.ok.inj hp
      have h := hbuilt built rfl
      rw [ids_append] at h
      exact (List.prefix_append _ _).trans h

theorem Follows.prefix_ids : ∀ {index : Nat} {cs : List Connection} {nodes : List ChainNode}
    {r : Except ChainError (List ChainNode)}, Follows compiler graph index cs nodes r →
      ∀ built, r = .ok built → ids nodes <+: ids built
  | _, _, _, _, .done => by rintro p ⟨⟩; exact List.prefix_rfl
  | _, _, _, _, .taken _ hf => hf.prefix_ids
  | _, _, _, _, .fails _ _ => by rintro p ⟨⟩
  | _, _, _, _, .dangles _ hv hf => fun built hr =>
    (hv.prefix_ids _ rfl).trans (hf.prefix_ids built hr)
  | _, _, _, _, .leads _ hv hf => fun built hr => by
    have h := hf.prefix_ids built hr
    rw [ids_modify_addBranch] at h
    exact (hv.prefix_ids _ rfl).trans h

end

/-- The nodes of the graph of which no chain node was built. -/
def unbuilt (graph : Graph) (nodes : List ChainNode) : List Uuid :=
  (graph.nodes.map Node.id).filter fun id => id ∉ ids nodes

theorem unbuilt_lt {id : Uuid} {n : Node} {nodes more : List ChainNode}
    (hnode : graph.node? id = some n) (hnew : id ∉ ids nodes)
    (hmore : ids nodes ++ [id] <+: ids more) :
    (unbuilt graph more).length < (unbuilt graph nodes).length := by
  have hid : id ∈ graph.nodes.map Node.id := by
    rw [← Graph.node?_id hnode]
    exact List.mem_map_of_mem (List.mem_of_find?_eq_some hnode)
  apply length_filter_not_mem_lt _ hid hnew
  · exact hmore.subset (List.mem_append_right _ List.mem_cons_self)
  · intro other hother
    exact hmore.subset (List.mem_append_left _ hother)

theorem follows_follow {visit : Uuid → List ChainNode → Visit} {index : Nat} {placed : List Uuid}
    (hvisit : ∀ id nodes, placed <+: ids nodes → Visits compiler graph id nodes (visit id nodes))
    {cs : List Connection} {nodes : List ChainNode} (hplaced : placed <+: ids nodes) :
    Follows compiler graph index cs nodes (follow visit graph.id index cs nodes) := by
  induction cs generalizing nodes with
  | nil => exact .done
  | cons c rest ih =>
    unfold follow
    split
    · rename_i htaken
      exact .taken htaken (ih hplaced)
    · rename_i hfree
      rw [Bool.not_eq_true] at hfree
      have hv := hvisit c.target nodes hplaced
      split
      · rename_i e he
        rw [he] at hv
        exact .fails hfree hv
      · rename_i built hb
        rw [hb] at hv
        exact .dangles hfree hv (ih (hplaced.trans (hv.prefix_ids _ rfl)))
      · rename_i target built hb
        rw [hb] at hv
        refine .leads hfree hv (ih ?_)
        rw [ids_modify_addBranch]
        exact hplaced.trans (hv.prefix_ids _ rfl)

/-- A visit whose depth exceeds the number of nodes that were not built is not cut short. -/
theorem visits_visit {depth : Nat} {id : Uuid} {nodes : List ChainNode}
    (hdepth : (unbuilt graph nodes).length < depth) :
    Visits compiler graph id nodes (visit compiler graph depth id nodes) := by
  induction depth generalizing id nodes with
  | zero => omega
  | succ depth ih =>
    unfold visit
    split
    · rename_i index hplace
      exact .again hplace
    · rename_i hplace
      split
      · rename_i hnode
        exact .missing hplace hnode
      · rename_i n hnode
        split
        · rename_i e hkind
          exact .refused hplace hnode hkind
        · rename_i hkind
          exact .start hplace hnode hkind
        · rename_i kind hkind
          dsimp only
          split
          · rename_i hfinish
            subst hfinish
            exact .finish hplace hnode hkind
          · rename_i hopen
            -- the node that is opened now counts as built, so what it leads to needs less depth
            refine .opens hplace hnode hkind hopen (follows_follow ?_ List.prefix_rfl)
            intro next built hbuilt
            apply ih
            have hless := unbuilt_lt hnode (place?_eq_none_iff.mp hplace)
              (by simpa using hbuilt)
            omega

theorem length_unbuilt_lt (graph : Graph) (nodes : List ChainNode) :
    (unbuilt graph nodes).length < graph.nodes.length + 1 := by
  have h := List.length_filter_le (fun id => id ∉ ids nodes) (graph.nodes.map Node.id)
  rw [List.length_map] at h
  exact Nat.lt_succ_of_le h

theorem flattens_flatten (compiler : Compiler) (graph : Graph) :
    Flattens compiler graph (flatten compiler graph) := by
  unfold flatten
  split
  · rename_i hfirst
    exact .empty hfirst
  · rename_i first hfirst
    exact .visits hfirst (visits_visit (length_unbuilt_lt graph []))

end

theorem mem_unseen {id : Uuid} {seen names : List Uuid} :
    id ∈ unseen seen names ↔ id ∈ names ∧ id ∉ seen := by
  induction names generalizing seen with
  | nil => simp [unseen]
  | cons name rest ih =>
    by_cases hseen : name ∈ seen
    · rw [unseen, if_pos hseen, ih, List.mem_cons]
      constructor
      · rintro ⟨hrest, hnew⟩
        exact ⟨.inr hrest, hnew⟩
      · rintro ⟨rfl | hrest, hnew⟩
        · exact absurd hseen hnew
        · exact ⟨hrest, hnew⟩
    · rw [unseen, if_neg hseen, List.mem_cons, ih, List.mem_cons, List.mem_cons]
      by_cases hid : id = name
      · subst hid
        simp [hseen]
      · simp [hid]

theorem nodup_unseen (seen names : List Uuid) : (unseen seen names).Nodup := by
  induction names generalizing seen with
  | nil => exact List.nodup_nil
  | cons name rest ih =>
    rw [unseen]
    split
    · exact ih seen
    · refine List.nodup_cons.mpr ⟨?_, ih _⟩
      intro hmem
      exact (mem_unseen.mp hmem).2 List.mem_cons_self

/-- The graphs that were built, in order. -/
def built (done : List (Uuid × List ChainNode)) : List Uuid := done.map Prod.fst

@[simp] theorem built_append (done more : List (Uuid × List ChainNode)) :
    built (done ++ more) = built done ++ built more := List.map_append

@[simp] theorem built_singleton (id : Uuid) (nodes : List ChainNode) :
    built [(id, nodes)] = [id] := rfl

/-- A graph is built or queued once, and these are the graphs seen. -/
structure Queued (queue seen : List Uuid) (done : List (Uuid × List ChainNode)) : Prop where
  nodup : (built done ++ queue).Nodup
  seen : ∀ id, id ∈ seen ↔ id ∈ built done ++ queue

theorem queued_root (root : Uuid) : Queued [root] [root] [] where
  nodup := by simp [built]
  seen := fun _ => Iff.rfl

theorem Queued.step {id : Uuid} {queue seen : List Uuid} {done : List (Uuid × List ChainNode)}
    (h : Queued (id :: queue) seen done) (nodes : List ChainNode) (names : List Uuid) :
    Queued (queue ++ unseen seen names) (seen ++ unseen seen names) (done ++ [(id, nodes)]) := by
  have hsplit : built (done ++ [(id, nodes)]) ++ (queue ++ unseen seen names) =
      (built done ++ id :: queue) ++ unseen seen names := by simp
  constructor
  · rw [hsplit, List.nodup_append]
    refine ⟨h.nodup, nodup_unseen seen names, ?_⟩
    rintro a hold b hfresh rfl
    exact (mem_unseen.mp hfresh).2 ((h.seen a).mpr hold)
  · intro other
    rw [hsplit, List.mem_append, List.mem_append, h.seen other]

/-- The graphs of the library that were not built. -/
def left (library : Library) (done : List (Uuid × List ChainNode)) : List Uuid :=
  (library.entries.map Prod.fst).filter fun id => id ∉ built done

theorem left_lt {library : Library} {id : Uuid} {queue seen : List Uuid}
    {done : List (Uuid × List ChainNode)} {graph : Graph} (nodes : List ChainNode)
    (hgraph : library.get? id = some graph) (hq : Queued (id :: queue) seen done) :
    (left library (done ++ [(id, nodes)])).length < (left library done).length := by
  have hnew : id ∉ built done := by
    intro hmem
    exact (List.nodup_append.mp hq.nodup).2.2 id hmem id List.mem_cons_self rfl
  have hid : id ∈ library.entries.map Prod.fst := by
    obtain ⟨before, after, hentries, _⟩ := List.lookup_eq_some_iff.mp hgraph
    simp [hentries]
  apply length_filter_not_mem_lt _ hid hnew
  · simp
  · intro other hother
    simp [hother]

theorem builds_flattenAll (compiler : Compiler) {library : Library} {fuel : Nat}
    {queue seen : List Uuid} {done : List (Uuid × List ChainNode)} (hq : Queued queue seen done)
    (hfuel : (left library done).length < fuel) :
    Builds compiler library queue seen done
      (flattenAll compiler library fuel queue seen done) := by
  induction fuel generalizing queue seen done with
  | zero => omega
  | succ fuel ih =>
    cases queue with
    | nil => exact .done
    | cons id queue =>
      unfold flattenAll
      split
      · rename_i hmissing
        exact .missing hmissing
      · rename_i graph hgraph
        have hflat := flattens_flatten compiler graph
        split
        · rename_i e he
          rw [he] at hflat
          exact .fails hgraph hflat
        · rename_i nodes hnodes
          rw [hnodes] at hflat
          refine .built hgraph hflat (ih (hq.step nodes _) ?_)
          have hless := left_lt nodes hgraph hq
          omega

/-- Building a chain comes to an end without its bounds, and with the same graphs. -/
theorem builds_build (compiler : Compiler) (library : Library) (root : Uuid) :
    Builds compiler library [root] [root] []
      ((build compiler library root).map Chain.graphs) := by
  have hfuel : (left library []).length < library.size + 1 := by
    have h := List.length_filter_le (fun id => id ∉ built []) (library.entries.map Prod.fst)
    rw [List.length_map] at h
    exact Nat.lt_succ_of_le h
  have hbuilds := builds_flattenAll compiler (queued_root root) hfuel
  unfold build
  cases hall : flattenAll compiler library (library.size + 1) [root] [root] [] with
  | error e =>
    rw [hall] at hbuilds
    exact hbuilds
  | ok graphs =>
    rw [hall] at hbuilds
    exact hbuilds

end Fabula.Chain
