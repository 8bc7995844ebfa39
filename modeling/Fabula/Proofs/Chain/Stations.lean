import Mathlib.Data.List.MinMax
import Mathlib.Data.List.ProdSigma
import Fabula.Proofs.Chain.Built
import Fabula.Proofs.Chain.Hops
import Fabula.Proofs.Script.Compiled

/-!
# Stations

A chain names finitely many places, and it keeps no more returns than the call depth allows. So a
walk can come to finitely many stations only, where a station is a place with the returns that are
pending there.
-/

namespace Fabula.Chain

/-- Where a walk stands, and where it will go on after the calls under way. -/
abbrev Station := Target × List Target

def station (c : Chain) : Station := (c.current, c.stack)

def scripts (c : Chain) : List Script :=
  c.graphs.flatMap fun entry => entry.2.filterMap fun n =>
    match n.kind with
    | .story _ script _ => some script
    | _ => none

def longest (c : Chain) : Nat := (c.scripts.map Script.size).foldr max 0

/-- The places that a node names. -/
def named (n : ChainNode) : List Target :=
  n.branches.map Prod.snd ++
    match n.kind with
    | .subgraph called => [⟨called, 0⟩]
    | _ => []

def places (c : Chain) : List Target :=
  ⟨c.root, 0⟩ :: c.graphs.flatMap fun entry => entry.2.flatMap named

/-- The stacks of places that are not higher than `depth`. -/
def stacksOf (ts : List Target) : Nat → List (List Target)
  | 0 => [[]]
  | depth + 1 => [] :: ts.flatMap fun t => (stacksOf ts depth).map (t :: ·)

def stations (c : Chain) : List Station := c.places.product (stacksOf c.places maxCallDepth)

/-- A walk through a chain has come to this one. -/
structure Walked (c d : Chain) : Prop where
  root : d.root = c.root
  graphs : d.graphs = c.graphs
  current : d.current ∈ c.places
  stack : ∀ t ∈ d.stack, t ∈ c.places
  depth : d.stack.length ≤ maxCallDepth

theorem size_le_longest {c : Chain} {script : Script} (h : script ∈ c.scripts) :
    script.size ≤ c.longest :=
  List.le_max_of_le' 0 (List.mem_map_of_mem h) (Nat.le_refl script.size)

theorem mem_stacksOf {ts stack : List Target} {depth : Nat} (h : ∀ t ∈ stack, t ∈ ts)
    (hdepth : stack.length ≤ depth) : stack ∈ stacksOf ts depth := by
  induction stack generalizing depth with
  | nil => cases depth <;> simp [stacksOf]
  | cons t rest ih =>
    cases depth with
    | zero => simp at hdepth
    | succ depth =>
      have hrest := ih (fun u hu => h u (List.mem_cons_of_mem t hu)) (by simpa using hdepth)
      apply List.mem_cons_of_mem
      exact List.mem_flatMap.mpr ⟨t, h t List.mem_cons_self, List.mem_map_of_mem hrest⟩

section
variable {c d d' : Chain}

theorem Walked.station_mem (h : Walked c d) : d.station ∈ c.stations :=
  List.mem_product.mpr ⟨h.current, mem_stacksOf h.stack h.depth⟩

/-- Until the end is reached, the station is all that changes. -/
theorem Walked.eq_of_station (h : Walked c d) (h' : Walked c d') (hended : d.ended = d'.ended)
    (hstation : d.station = d'.station) : d = d' := by
  have hroot := h.root.trans h'.root.symm
  have hgraphs := h.graphs.trans h'.graphs.symm
  obtain ⟨hcurrent, hstack⟩ := Prod.mk.inj hstation
  cases d
  cases d'
  rw [Chain.mk.injEq]
  exact ⟨hroot, hgraphs, hstack, hcurrent, hended⟩

theorem mem_of_nodeAt {t : Target} {n : ChainNode} (h : c.nodeAt t = .ok (some n)) :
    ∃ nodes, (t.graph, nodes) ∈ c.graphs ∧ n ∈ nodes := by
  unfold nodeAt nodes? at h
  cases hnodes : c.graphs.lookup t.graph with
  | none => simp [hnodes] at h
  | some nodes =>
    rw [hnodes] at h
    exact ⟨nodes, mem_of_lookup hnodes, List.mem_of_getElem? (Except.ok.inj h)⟩

theorem named_mem_places {t u : Target} {n : ChainNode} (h : c.nodeAt t = .ok (some n))
    (hu : u ∈ named n) : u ∈ c.places := by
  obtain ⟨nodes, hnodes, hn⟩ := mem_of_nodeAt h
  apply List.mem_cons_of_mem
  exact List.mem_flatMap.mpr ⟨_, hnodes, List.mem_flatMap.mpr ⟨n, hn, hu⟩⟩

theorem branch_mem_named {n : ChainNode} {outlet : String} {t : Target}
    (h : n.branch? outlet = some t) : t ∈ named n := by
  obtain ⟨before, after, hbranches, _⟩ := List.lookup_eq_some_iff.mp h
  apply List.mem_append_left
  rw [hbranches]
  simp

theorem arrival_story {t : Target} {script : Script} (h : c.arrival t = .ok (.story script)) :
    script ∈ c.scripts := by
  unfold arrival at h
  rcases hat : c.nodeAt t with e | (_ | n) <;> rw [hat] at h
  · simp at h
  · simp at h
  · obtain ⟨nodes, hnodes, hn⟩ := mem_of_nodeAt hat
    refine List.mem_flatMap.mpr ⟨_, hnodes, List.mem_filterMap.mpr ⟨n, hn, ?_⟩⟩
    cases hkind : n.kind <;> simp_all

theorem arrival_call {t : Target} {called : Uuid} {resume : Option Target}
    (h : c.arrival t = .ok (.call called resume)) :
    ⟨called, 0⟩ ∈ c.places ∧ ∀ u, resume = some u → u ∈ c.places := by
  unfold arrival at h
  rcases hat : c.nodeAt t with e | (_ | n) <;> rw [hat] at h
  · simp at h
  · simp at h
  · cases hkind : n.kind with
    | story source script names => simp [hkind] at h
    | finish => simp [hkind] at h
    | subgraph key =>
      simp only [hkind, Except.ok.injEq, Arrival.call.injEq] at h
      obtain ⟨rfl, rfl⟩ := h
      constructor
      · exact named_mem_places hat (by simp [named, hkind])
      · intro u hu
        exact named_mem_places hat (branch_mem_named hu)

theorem Walked.nodeAt_eq (h : Walked c d) (t : Target) : d.nodeAt t = c.nodeAt t :=
  nodeAt_congr h.graphs t

theorem Walked.arrival_eq (h : Walked c d) (t : Target) : d.arrival t = c.arrival t :=
  arrival_congr h.graphs t

/-- The story on which a walk stands is one of the chain's. -/
theorem Walked.story_mem {script : Script} (h : Walked c d)
    (hstory : d.arrival d.current = .ok (.story script)) : script ∈ c.scripts := by
  rw [h.arrival_eq] at hstory
  exact arrival_story hstory

theorem Walked.move {t : Target} (h : Walked c d) (ht : t ∈ c.places) :
    Walked c { d with current := t } :=
  ⟨h.root, h.graphs, ht, h.stack, h.depth⟩

theorem Walked.leads {t : Target} (h : Walked c d) (hleads : Leads d t d') :
    Walked c d' ∧ t ∈ c.places := by
  cases hleads with
  | call hat hpush =>
    rw [h.arrival_eq] at hat
    obtain ⟨hcalled, hresume⟩ := arrival_call hat
    refine ⟨?_, hcalled⟩
    rcases pushReturn_eq_ok hpush with ⟨_, rfl⟩ | ⟨u, rfl, hdepth, rfl⟩
    · exact h
    · refine ⟨h.root, h.graphs, h.current, ?_, hdepth⟩
      intro v hv
      rcases List.mem_cons.mp hv with rfl | hv
      · exact hresume v rfl
      · exact h.stack v hv
  | @back _ rest _ hstack =>
    have hall := h.stack
    have hdepth := h.depth
    rw [hstack] at hall hdepth
    refine ⟨⟨h.root, h.graphs, h.current, ?_, Nat.le_of_succ_le hdepth⟩, ?_⟩
    · exact fun v hv => hall v (List.mem_cons_of_mem t hv)
    · exact hall t List.mem_cons_self

theorem Walked.hops (h : Walked c d) (hwalk : Relation.ReflTransGen Hops d d') : Walked c d' := by
  induction hwalk with
  | refl => exact h
  | tail _ hhop ih =>
    obtain ⟨t, e, hleads, rfl⟩ := hhop
    obtain ⟨hwalked, ht⟩ := ih.leads hleads
    exact hwalked.move ht

theorem Walked.stops {r : Except ChainError Step × Chain} (h : Walked c d) (hstops : Stops d r) :
    Walked c r.2 := by
  cases hstops with
  | lost | story | tooDeep => exact h
  | tooLong hleads => exact (h.leads hleads).1
  | ended => exact ⟨h.root, h.graphs, h.current, h.stack, h.depth⟩

theorem Walked.enter {hops : Nat} {t : Target} (h : Walked c d) (ht : t ∈ c.places) :
    Walked c (d.enter hops t).2 := by
  cases hops with
  | zero => exact h
  | succ hops =>
    obtain ⟨e, hwalk, hstops⟩ := exists_stops_enter hops t d
    exact ((h.move ht).hops hwalk).stops hstops

theorem Walked.onward {outlet : String} {t : Target} (h : Walked c d)
    (honward : Onward d outlet t) : t ∈ c.places := by
  cases honward with
  | branch hat ht =>
    rw [h.nodeAt_eq] at hat
    exact named_mem_places hat (branch_mem_named ht)
  | call hat hkind =>
    rw [h.nodeAt_eq] at hat
    exact named_mem_places hat (by simp [named, hkind])
  | again _ => exact h.current

theorem Walked.leaveBy (h : Walked c d) (outlet : String) : Walked c (d.leaveBy outlet).2 := by
  have hleaves := leaves_leaveBy d outlet
  generalize d.leaveBy outlet = r at hleaves
  cases hleaves with
  | ended | lost | stays => exact h
  | enters _ honward => exact h.enter (h.onward honward)

theorem Walked.reset (h : Walked c d) : Walked c d.reset.2 := by
  have hcleared : Walked c { d with stack := [], ended := false } :=
    ⟨h.root, h.graphs, h.current, by simp, by simp [maxCallDepth]⟩
  refine hcleared.enter ?_
  rw [h.root]
  exact List.mem_cons_self

end

section
variable {l : Library} {root : Uuid} {c : Chain}

theorem walked_of_build {compiler : Script.Compiler} (h : build compiler l root = .ok c) :
    Walked c c := by
  obtain ⟨hroot, hstack, hcurrent, _⟩ := opening_of_build h
  refine ⟨rfl, rfl, ?_, by simp [hstack], by simp [hstack]⟩
  rw [hcurrent, ← hroot]
  exact List.mem_cons_self

theorem compile_of_mem_scripts {compiler : Script.Compiler} (h : build compiler l root = .ok c)
    {script : Script} (hscript : script ∈ c.scripts) :
    ∃ name text, compiler.compile name text = .ok script := by
  obtain ⟨all, hp⟩ := progress_of_build h
  obtain ⟨entry, hentry, hscript⟩ := List.mem_flatMap.mp hscript
  obtain ⟨n, hn, hkind⟩ := List.mem_filterMap.mp hscript
  obtain ⟨g, _, hflat⟩ := hp.flat entry hentry
  obtain ⟨d, _, hd⟩ := hflat.made n hn
  cases hnkind : n.kind with
  | subgraph called => simp [hnkind] at hkind
  | finish => simp [hnkind] at hkind
  | story source other names =>
    simp only [hnkind, Option.some.injEq] at hkind
    obtain rfl := hkind
    rw [hnkind] at hd
    exact ⟨_, _, compile_of_kindOf_story hd⟩

/-- The stories of a chain are grown from their lines. -/
theorem grown_of_mem_scripts (h : build .standard l root = .ok c) {script : Script}
    (hscript : script ∈ c.scripts) : Script.Grown script.sentences := by
  obtain ⟨name, text, hcompile⟩ := compile_of_mem_scripts h hscript
  exact Script.Compiler.grown_of_compile hcompile

end

end Fabula.Chain
