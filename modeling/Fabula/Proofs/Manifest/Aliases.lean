import Fabula.Proofs.Graph.Aliases
import Fabula.Proofs.Manifest.Closed

/-!
# Names in manifests

Every section of a manifest is written as a blueprint with its names and links, so names stand for
the same in a manifest as in a program that writes a graph. Neither looks whether a name was given
before: a link is drawn between the newest nodes of its names, and a node that lost its name, a
terminal too, is cut off.
-/

namespace Fabula.Manifest

open IdSupply (Draws DrawsOnce)

def Entry.name : Entry → String
  | .story id _ _ _ => id
  | .subgraph id _ => id

/-- The blueprint that a section of the manifest at a path is written as. -/
structure Transcribes (disk : Disk) (path : String) (sec : Section) (b : Blueprint) : Prop where
  name : b.name = sec.name
  links : b.links = sec.links
  names : b.declarations.map Declaration.name = sec.entries.map Entry.name
  declarations : ∃ ids,
    declareAll disk (Path.parent path) ids sec.name sec.entries = .ok b.declarations

section
variable {reader : Reader} {disk : Disk} {path base graph : String} {ids : GraphIds}

theorem name_of_declare {entry : Entry} {d : Declaration}
    (h : declare disk base ids graph entry = .ok d) : d.name = entry.name := by
  cases entry with
  | story id script characters position =>
    simp only [declare] at h
    split at h
    · cases h
    · obtain rfl := Except.ok.inj h
      rfl
  | subgraph id target =>
    simp only [declare] at h
    split at h
    · obtain rfl := Except.ok.inj h
      rfl
    · cases h

theorem names_of_declareAll {entries : List Entry} {ds : List Declaration}
    (h : declareAll disk base ids graph entries = .ok ds) :
    ds.map Declaration.name = entries.map Entry.name := by
  induction entries generalizing ds with
  | nil =>
    obtain rfl := Except.ok.inj h
    rfl
  | cons entry rest ih =>
    rw [declareAll] at h
    obtain ⟨d, hdeclare, h⟩ := Graph.exists_of_bind_eq_ok h
    obtain ⟨others, hothers, h⟩ := Graph.exists_of_bind_eq_ok h
    obtain rfl := Except.ok.inj h
    rw [List.map_cons, List.map_cons, name_of_declare hdeclare, ih hothers]

/-- The graph was built from the section, with ids drawn between `s` and `t`. -/
def BuiltFrom (disk : Disk) (path : String) (s t : IdSupply) (sec : Section) (g : Graph) : Prop :=
  ∃ b u v, Transcribes disk path sec b ∧ b.build u = (.ok g, v) ∧ Draws s u ∧ Draws v t

theorem BuiltFrom.follows {s t : IdSupply} {sec : Section} {g : Graph}
    (h : BuiltFrom disk path s t sec g) (honce : DrawsOnce s t) :
    ∃ b, Transcribes disk path sec b ∧ b.Follows g := by
  obtain ⟨b, u, v, hb, hbuild, hu, hv⟩ := h
  exact ⟨b, hb, Blueprint.follows_of_build hbuild (honce.within hu hv)⟩

-- By induction on the sections that are left.
theorem builtFrom_of_buildAll {sections : List Section} {front back : GraphIds} {l l' : Library}
    {s t : IdSupply} (hsplit : ids = front ++ back)
    (hback : back.map Prod.fst = sections.map Section.name) (hnames : (ids.map Prod.fst).Nodup)
    (hids : (ids.map Prod.snd).Nodup) (hl : Filled ids front l)
    (h : buildAll disk path ids sections l s = (.ok l', t)) :
    ∃ gs, l'.graphs = l.graphs ++ gs ∧ List.Forall₂ (BuiltFrom disk path s t) sections gs := by
  induction sections generalizing front back l s with
  | nil =>
    obtain ⟨hok, _⟩ := Prod.mk.inj h
    obtain rfl := Except.ok.inj hok
    exact ⟨[], (List.append_nil _).symm, .nil⟩
  | cons sec rest ih =>
    obtain ⟨id, others, ds, g, u, rfl, hothers, hdeclare, hbuild, hfilled, hgraphs, hrest⟩ :=
      hl.step hsplit hback hnames hids h
    have hu : Draws s u := (Blueprint.onlyDraws_build _).later hbuild
    have ht : Draws u t := (onlyDraws_buildAll disk path ids rest _).later hrest
    have hfirst : BuiltFrom disk path s t sec g :=
      ⟨_, s, u, ⟨rfl, rfl, names_of_declareAll hdeclare, ids, hdeclare⟩, hbuild, .refl s, ht⟩
    obtain ⟨gs, hgs, hall⟩ := ih (by rw [hsplit, List.append_cons]) hothers hfilled hrest
    refine ⟨g :: gs, ?_, .cons hfirst (hall.imp ?_)⟩
    · rw [hgs, hgraphs, List.append_assoc]
      rfl
    · intro other k hk
      obtain ⟨b, v, w, hb, hbuild, hv, hw⟩ := hk
      exact ⟨b, v, w, hb, hbuild, hu.trans hv, hw⟩

theorem builtFrom_of_load {s t : IdSupply} {l : Library}
    (h : loadWith reader disk path s = (.ok l, t)) (honce : DrawsOnce s t) :
    ∃ m u, readWith reader disk path = .ok m ∧ Draws s u ∧
      List.Forall₂ (BuiltFrom disk path u t) m.graphs l.graphs := by
  obtain ⟨m, ids, u, hread, hmanifest, hnames, hids, hu, hbuild⟩ := assigned_of_load h honce
  obtain ⟨gs, hgs, hall⟩ := builtFrom_of_buildAll (List.nil_append ids).symm hmanifest hnames hids
    (filled_empty ids) hbuild
  rw [show l.graphs = gs from hgs]
  exact ⟨m, u, hread, hu, hall⟩

end

/-- A graph is written by calls in any order, or as a section of a manifest. When its ids were drawn
once each, its connections are those of its links, each between the nodes to which the two names
were given last, and a node whose name was given again is cut off. Every name in a link is the name
of one node, `start` and `end` of the terminals, if and only if each was given once, `start` and
`end` by no declaration. -/
theorem links_join_newest {s t : IdSupply} (honce : DrawsOnce s t) :
    (∀ name id calls g, Blueprint.write name id calls s = (.ok g, t) →
      (Blueprint.ofCalls name id calls).Follows g) ∧
    ∀ reader disk path l, loadWith reader disk path s = (.ok l, t) →
      ∃ m, readWith reader disk path = .ok m ∧
        List.Forall₂ (fun sec g => ∃ b, Transcribes disk path sec b ∧ b.Follows g)
          m.graphs l.graphs := by
  constructor
  · intro name id calls g h
    rw [Blueprint.write_eq_build] at h
    exact Blueprint.follows_of_build h honce
  · intro reader disk path l h
    obtain ⟨m, u, hread, hu, hall⟩ := builtFrom_of_load h honce
    refine ⟨m, hread, hall.imp ?_⟩
    intro sec g hbuilt
    exact hbuilt.follows (honce.within hu (.refl t))

/-- The link to the gate is written between the two gates, and leads to the second of them. -/
def twoGates : List Blueprint.Call :=
  [.declare (.subgraph "gate" (.ofNat 9)), .link ⟨"start", defaultOutlet, "gate"⟩,
    .declare (.subgraph "gate" (.ofNat 8)), .link ⟨"gate", defaultOutlet, "end"⟩]

/-- A graph that calls itself by a node that takes the name of the finish. -/
def annex : Disk where
  read _ := .ok ("graphs: [" ++
    "\x7bname: hall, nodes: [\x7btype: subgraph, id: end, graph: hall\x7d], " ++
    "connections: [\x7bfrom: start, to: end\x7d]\x7d]")
  entries? _ := none

theorem load_annex : ((load annex "m.yaml" (.startingAt 1)).1.toOption.map fun l =>
      l.graphs.map fun g => (g.finish.id, g.connections),
      (load annex "m.yaml" (.startingAt 1)).2.taken) =
    (some [(.ofNat 3, [⟨.ofNat 2, defaultOutlet, .ofNat 4, defaultOutlet⟩])], 4) := by
  decide +kernel

theorem links_join_newest_annex :
    (∃ g t, Blueprint.write "yard" none twoGates (.startingAt 1) = (.ok g, t) ∧
      DrawsOnce (.startingAt 1) t ∧ g.ids = [.ofNat 2, .ofNat 3, .ofNat 4, .ofNat 5] ∧
      g.connections = [⟨.ofNat 2, defaultOutlet, .ofNat 5, defaultOutlet⟩,
        ⟨.ofNat 5, defaultOutlet, .ofNat 3, defaultOutlet⟩] ∧
      (Blueprint.ofCalls "yard" none twoGates).Follows g) ∧
    ∃ l t, load annex "m.yaml" (.startingAt 1) = (.ok l, t) ∧ DrawsOnce (.startingAt 1) t ∧
      (l.graphs.map fun g => (g.finish.id, g.connections)) =
        [(.ofNat 3, [⟨.ofNat 2, defaultOutlet, .ofNat 4, defaultOutlet⟩])] ∧
      ∃ m, read annex "m.yaml" = .ok m ∧
        List.Forall₂ (fun sec g => ∃ b, Transcribes annex "m.yaml" sec b ∧ b.Follows g)
          m.graphs l.graphs := by
  constructor
  · have hwrite : Blueprint.write "yard" none twoGates (.startingAt 1) = (.ok _, _) := rfl
    have honce : DrawsOnce (.startingAt 1)
        (Blueprint.write "yard" none twoGates (.startingAt 1)).2 := drawsOnce_startingAt (by decide)
    exact ⟨_, _, hwrite, honce, by decide, by decide,
      (links_join_newest honce).1 "yard" none twoGates _ hwrite⟩
  · obtain ⟨hloaded, htaken⟩ := Prod.mk.inj load_annex
    generalize hload : load annex "m.yaml" (.startingAt 1) = loaded at hloaded htaken
    obtain ⟨e | l, t⟩ := loaded
    · cases hloaded
    · have honce : DrawsOnce (.startingAt 1) t :=
        drawsOnce_startingAt (Nat.le_trans (Nat.le_of_eq htaken) (by decide))
      exact ⟨l, t, rfl, honce, Option.some.inj hloaded,
        (links_join_newest honce).2 ofText? annex "m.yaml" _ hload⟩

def newStart : List Blueprint.Call :=
  [.declare (.story "start" ⟨⟨"start", ""⟩, []⟩ .origin), .link ⟨"start", defaultOutlet, "end"⟩]

/-- A story takes the name of the start. The link that was written from the start leaves the story,
and no connection touches the start itself. -/
theorem story_named_start : ∃ g t, Blueprint.write "g" none newStart (.startingAt 1) = (.ok g, t) ∧
    DrawsOnce (.startingAt 1) t ∧ (∀ c ∈ g.connections, c.touches g.start.id = false) ∧
    ¬(Blueprint.ofCalls "g" none newStart).Unambiguous g := by
  refine ⟨_, _, rfl, drawsOnce_startingAt (by decide), by decide, ?_⟩
  intro hclear
  obtain ⟨m, _, hm, _, _⟩ := hclear ⟨"start", defaultOutlet, "end"⟩ List.mem_cons_self
  have hterminal := (hm (.ofKind (.ofNat 2) .start)).mp (by decide)
  have hstory := (hm ⟨.ofNat 4, .origin, .story ⟨⟨"start", ""⟩, []⟩⟩).mp (by decide)
  exact absurd (hterminal.trans hstory.symm) (by decide)

end Fabula.Manifest
