import Mathlib.Data.List.Nodup
import Fabula.Manifest.Yaml
import Fabula.Proofs.Chain.Built
import Fabula.Proofs.Graph.Drawing

/-!
# Libraries from manifests

A manifest names its graphs, and loading it gives each name an id before any graph is built. So
the library that is loaded is closed: whatever graph a subgraph node names is there, also when two
graphs name each other or a graph names itself. A chain that is built from such a library fails at
a script that does not compile, and for no other reason.
-/

namespace Fabula

/-- Every graph that a subgraph node names is in the library. -/
def Library.Closed (l : Library) : Prop :=
  ∀ key g n called, l.get? key = some g → n ∈ g.nodes → n.kind = .subgraph called →
    (l.get? called).isSome = true

namespace Chain

open Script (Compiler)

section
variable {compiler : Compiler} {l : Library} {root : Uuid}

theorem eq_compile_of_kindOf {d : Node} {e : ChainError} (h : kindOf compiler d = .error e) :
    ∃ source, e = .compile d.id source := by
  unfold kindOf at h
  split at h
  · simp at h
  · simp at h
  · simp at h
  · split at h
    · simp at h
    · rename_i source _
      exact ⟨source, (Except.error.inj h).symm⟩

/-- Building fails for a graph that is called and not there, or for a story that does not
compile. -/
theorem error_of_builds {queue seen : List Uuid} {done : List (Uuid × List ChainNode)}
    {r : Except ChainError (List (Uuid × List ChainNode))} {e : ChainError}
    (h : Builds compiler l queue seen done r) (hp : Progress compiler l root queue seen done)
    (hr : r = .error e) :
    (∃ key, e = .missingGraph key ∧ Called l root key ∧ l.get? key = none) ∨
      ∃ node source, e = .compile node source := by
  induction h with
  | done => cases hr
  | missing hmissing =>
    obtain rfl := Except.error.inj hr
    exact .inl ⟨_, rfl, hp.called_head, hmissing⟩
  | fails _ hfails =>
    obtain rfl := Except.error.inj hr
    obtain ⟨_, _, d, _, _, _, hkind⟩ := fails_of_flattens hfails
    obtain ⟨source, he⟩ := eq_compile_of_kindOf hkind
    exact .inr ⟨d.id, source, he⟩
  | built hg hflat _ ih => exact ih (hp.step hg (flat_of_flattens hflat)) hr

theorem called_isSome (hl : l.Closed) (hroot : (l.get? root).isSome = true) {key : Uuid}
    (h : Called l root key) : (l.get? key).isSome = true := by
  cases h with
  | root => exact hroot
  | node _ hg hnode hkind => exact hl _ _ _ _ hg (List.mem_of_find?_eq_some hnode) hkind

/-- From a graph of a closed library a chain is built, unless a story does not compile. -/
theorem build_of_closed (compiler : Compiler) (hl : l.Closed)
    (hroot : (l.get? root).isSome = true) :
    (∃ c, build compiler l root = .ok c) ∨
      ∃ node source, build compiler l root = .error (.compile node source) := by
  have hbuilds := builds_build compiler l root
  cases hc : build compiler l root with
  | ok c => exact .inl ⟨c, rfl⟩
  | error e =>
    rw [hc] at hbuilds
    rcases error_of_builds hbuilds progress_root rfl with ⟨key, _, hcalled, hmissing⟩ | hcompile
    · have hsome := called_isSome hl hroot hcalled
      simp [hmissing] at hsome
    · obtain ⟨node, source, rfl⟩ := hcompile
      exact .inr ⟨node, source, rfl⟩

end

end Chain

open IdSupply (Draws OnlyDraws DrawsOnce onlyDraws_pure)

namespace Manifest

section
variable {reader : Reader} {disk : Disk} {path base : String} {ids : GraphIds}

/-- An id for each of the sections, in their order and as they were drawn. -/
structure Assigned (sections : List Section) (s t : IdSupply) (ids : GraphIds) : Prop where
  names : ids.map Prod.fst = sections.map Section.name
  ids : ids.map Prod.snd = (List.range' s.taken sections.length).map s.stream
  stream : t.stream = s.stream
  taken : t.taken = s.taken + sections.length

theorem assignIds_cons (path : String) (sec : Section) (rest : List Section) (ids : GraphIds)
    (s : IdSupply) : assignIds path (sec :: rest) ids s =
      if (ids.lookup sec.name).isSome then (.error (.duplicateGraph sec.name path), s.next.2)
      else assignIds path rest (ids ++ [(sec.name, s.next.1)]) s.next.2 := by
  rw [assignIds]
  by_cases h : (ids.lookup sec.name).isSome = true
  · simp only [h, if_true]
    rfl
  · simp only [h]
    rfl

theorem assigned_of_assignIds {sections : List Section} (front : GraphIds) {s t : IdSupply}
    (hfront : (front.map Prod.fst).Nodup) (h : assignIds path sections front s = (.ok ids, t)) :
    (ids.map Prod.fst).Nodup ∧ ∃ back, ids = front ++ back ∧ Assigned sections s t back := by
  induction sections generalizing front s with
  | nil =>
    obtain ⟨hids, rfl⟩ := Prod.mk.inj h
    obtain rfl := Except.ok.inj hids
    exact ⟨hfront, [], (List.append_nil _).symm, rfl, rfl, rfl, rfl⟩
  | cons sec rest ih =>
    rw [assignIds_cons] at h
    split at h
    · cases h
    · rename_i hnew
      have hnot : sec.name ∉ front.map Prod.fst := by
        rw [Option.not_isSome_iff_eq_none, List.lookup_eq_none_iff] at hnew
        rintro hmem
        obtain ⟨entry, hentry, hname⟩ := List.mem_map.mp hmem
        simpa [hname] using hnew entry hentry
      have hnodup : ((front ++ [(sec.name, s.next.1)]).map Prod.fst).Nodup := by
        rw [List.map_append, List.nodup_append]
        refine ⟨hfront, by simp, ?_⟩
        rintro a ha b hb rfl
        obtain rfl : a = sec.name := by simpa using hb
        exact hnot ha
      obtain ⟨hall, back, rfl, hback⟩ := ih _ hnodup h
      refine ⟨hall, (sec.name, s.next.1) :: back, by simp, ?_, ?_, hback.stream, ?_⟩
      · rw [List.map_cons, hback.names, List.map_cons]
      · rw [List.map_cons, hback.ids, List.length_cons, List.range'_succ, List.map_cons]
        rfl
      · rw [hback.taken, List.length_cons]
        simp only [IdSupply.next]
        omega

/-- A declaration of a manifest calls a graph of the manifest. -/
theorem known_of_declareAll {graph : String} {entries : List Entry} {ds : List Declaration}
    (h : declareAll disk base ids graph entries = .ok ds) {name : String} {called : Uuid}
    (hd : .subgraph name called ∈ ds) : called ∈ ids.map Prod.snd := by
  induction entries generalizing ds with
  | nil =>
    obtain rfl := Except.ok.inj h
    simp at hd
  | cons entry rest ih =>
    rw [declareAll] at h
    obtain ⟨d, hdeclare, h⟩ := Graph.exists_of_bind_eq_ok h
    obtain ⟨others, hothers, h⟩ := Graph.exists_of_bind_eq_ok h
    obtain rfl := Except.ok.inj h
    rcases List.mem_cons.mp hd with rfl | hd
    · cases entry with
      | story id script characters position =>
        simp only [declare] at hdeclare
        split at hdeclare <;> simp at hdeclare
      | subgraph id target =>
        simp only [declare] at hdeclare
        split at hdeclare
        · rename_i other hother
          obtain ⟨_, rfl⟩ := Declaration.subgraph.inj (Except.ok.inj hdeclare)
          obtain ⟨before, after, rfl, _⟩ := List.lookup_eq_some_iff.mp hother
          simp
        · simp at hdeclare
    · exact ih hothers hd

/-- A library that holds the graphs of the first of the ids, each as it was built. -/
structure Filled (ids front : GraphIds) (l : Library) : Prop where
  keyed : l.Keyed
  named : l.entries.map (fun entry => (entry.2.name, entry.1)) = front
  created : ∀ g ∈ l.graphs, ∃ bare, Graph.Created bare g
  calls : ∀ g ∈ l.graphs, ∀ n ∈ g.nodes, ∀ called, n.kind = .subgraph called →
    called ∈ ids.map Prod.snd

theorem filled_empty (ids : GraphIds) : Filled ids [] .empty where
  keyed := Library.keyed_empty
  named := rfl
  created := by simp [Library.graphs, Library.empty]
  calls := by simp [Library.graphs, Library.empty]

theorem put_eq_append {α : Type} {key : Uuid} {value : α} {entries : List (Uuid × α)}
    (h : key ∉ entries.map Prod.fst) :
    Library.put key value entries = entries ++ [(key, value)] := by
  induction entries with
  | nil => rfl
  | cons entry rest ih =>
    obtain ⟨hne, hrest⟩ := not_or.mp fun hor => h (List.mem_cons.mpr hor)
    rw [Library.put, if_neg (Ne.symm hne), ih hrest, List.cons_append]

theorem graphs_insert {l : Library} {g : Graph} (h : g.id ∉ l.entries.map Prod.fst) :
    (l.insert g).graphs = l.graphs ++ [g] := by
  rw [Library.graphs, Library.insert, put_eq_append h, List.map_append]
  rfl

theorem Filled.keys {front : GraphIds} {l : Library} (h : Filled ids front l) :
    l.entries.map Prod.fst = front.map Prod.snd := by
  calc l.entries.map Prod.fst =
      (l.entries.map fun entry => (entry.2.name, entry.1)).map Prod.snd := by
        rw [List.map_map]
        rfl
    _ = front.map Prod.snd := by rw [h.named]

theorem Filled.insert {front : GraphIds} {l : Library} {g : Graph} {name : String} {id : Uuid}
    (h : Filled ids front l) (hnew : id ∉ front.map Prod.snd) (hid : g.id = id)
    (hname : g.name = name) (hcreated : ∃ bare, Graph.Created bare g)
    (hcalls : ∀ n ∈ g.nodes, ∀ called, n.kind = .subgraph called → called ∈ ids.map Prod.snd) :
    Filled ids (front ++ [(name, id)]) (l.insert g) := by
  have hfresh : id ∉ l.entries.map Prod.fst := by rwa [h.keys]
  have hentries : (l.insert g).entries = l.entries ++ [(id, g)] := by
    rw [Library.insert, hid]
    exact put_eq_append hfresh
  have hgraphs : (l.insert g).graphs = l.graphs ++ [g] := graphs_insert (hid ▸ hfresh)
  constructor
  · exact Library.keyed_insert h.keyed g
  · rw [hentries, List.map_append, h.named, List.map_singleton, hname]
  · intro k hk
    rw [hgraphs] at hk
    rcases List.mem_append.mp hk with hk | hk
    · exact h.created k hk
    · obtain rfl := List.mem_singleton.mp hk
      exact hcreated
  · intro k hk
    rw [hgraphs] at hk
    rcases List.mem_append.mp hk with hk | hk
    · exact h.calls k hk
    · obtain rfl := List.mem_singleton.mp hk
      exact hcalls

theorem onlyDraws_buildAll (disk : Disk) (path : String) (ids : GraphIds)
    (sections : List Section) (l : Library) : OnlyDraws (buildAll disk path ids sections l) := by
  induction sections generalizing l with
  | nil => exact onlyDraws_pure _
  | cons sec rest ih =>
    unfold buildAll
    split
    · exact onlyDraws_pure _
    · refine .bind (Blueprint.onlyDraws_build _) fun r => ?_
      cases r with
      | error cause => exact onlyDraws_pure _
      | ok g => exact ih (l.insert g)

/-- The graph of the next section is built from what it declares and gets the next id. -/
theorem Filled.step {sec : Section} {rest : List Section} {front back : GraphIds} {l l' : Library}
    {s t : IdSupply} (hl : Filled ids front l) (hsplit : ids = front ++ back)
    (hback : back.map Prod.fst = (sec :: rest).map Section.name)
    (hnames : (ids.map Prod.fst).Nodup) (hids : (ids.map Prod.snd).Nodup)
    (h : buildAll disk path ids (sec :: rest) l s = (.ok l', t)) :
    ∃ id others ds g u, back = (sec.name, id) :: others ∧
      others.map Prod.fst = rest.map Section.name ∧
      declareAll disk (Path.parent path) ids sec.name sec.entries = .ok ds ∧
      Blueprint.build ⟨sec.name, some id, ds, sec.links⟩ s = (.ok g, u) ∧
      Filled ids (front ++ [(sec.name, id)]) (l.insert g) ∧
      (l.insert g).graphs = l.graphs ++ [g] ∧
      buildAll disk path ids rest (l.insert g) u = (.ok l', t) := by
  obtain ⟨⟨name, id⟩, others, rfl, hname, hothers⟩ := List.map_eq_cons_iff.mp hback
  obtain rfl : name = sec.name := hname
  have hlookup : ids.lookup sec.name = some id :=
    Chain.lookup_of_mem hnames (by simp [hsplit])
  have hnew : id ∉ front.map Prod.snd := by
    rw [hsplit, List.map_append, List.nodup_append] at hids
    exact fun hmem => hids.2.2 id hmem id (by simp) rfl
  rw [buildAll] at h
  cases hdeclare : declareAll disk (Path.parent path) ids sec.name sec.entries with
  | error e =>
    rw [hdeclare] at h
    cases h
  | ok ds =>
    rw [hdeclare, hlookup] at h
    rcases hbuild : Blueprint.build ⟨sec.name, some id, ds, sec.links⟩ s with ⟨cause | g, u⟩ <;>
      simp only [bind, StateT.bind, hbuild] at h
    · cases h
    · have hok : (Blueprint.build ⟨sec.name, some id, ds, sec.links⟩ s).1 = .ok g := by
        rw [hbuild]
      obtain ⟨hgid, hgname, hcalls⟩ := Blueprint.declared_of_build rfl hok
      have hgnew : g.id ∉ l.entries.map Prod.fst := by rwa [hgid, hl.keys]
      refine ⟨id, others, ds, g, u, rfl, hothers, rfl, hbuild, ?_, graphs_insert hgnew, h⟩
      refine hl.insert hnew hgid hgname ⟨_, .built hok⟩ fun n hn called hkind => ?_
      obtain ⟨_, hd⟩ := hcalls n hn called hkind
      exact known_of_declareAll hdeclare hd

-- By induction on the sections that are left.
theorem filled_of_buildAll {sections : List Section} {front back : GraphIds} {l l' : Library}
    {s t : IdSupply} (hsplit : ids = front ++ back)
    (hback : back.map Prod.fst = sections.map Section.name) (hnames : (ids.map Prod.fst).Nodup)
    (hids : (ids.map Prod.snd).Nodup) (hl : Filled ids front l)
    (h : buildAll disk path ids sections l s = (.ok l', t)) : Filled ids ids l' := by
  induction sections generalizing front back l s with
  | nil =>
    obtain ⟨hok, _⟩ := Prod.mk.inj h
    obtain rfl := Except.ok.inj hok
    obtain rfl : back = [] := by simpa using hback
    rw [List.append_nil] at hsplit
    rwa [← hsplit] at hl
  | cons sec rest ih =>
    obtain ⟨id, others, _, _, _, rfl, hothers, _, _, hfilled, _, hrest⟩ :=
      hl.step hsplit hback hnames hids h
    exact ih (by rw [hsplit, List.append_cons]) hothers hfilled hrest

/-- The ids are drawn before the first graph is built. -/
theorem assigned_of_load {s t : IdSupply} {l : Library}
    (h : loadWith reader disk path s = (.ok l, t)) (honce : DrawsOnce s t) :
    ∃ m ids u, readWith reader disk path = .ok m ∧
      ids.map Prod.fst = m.graphs.map Section.name ∧ (ids.map Prod.fst).Nodup ∧
      (ids.map Prod.snd).Nodup ∧ Draws s u ∧
      buildAll disk path ids m.graphs .empty u = (.ok l, t) := by
  unfold loadWith at h
  cases hread : readWith reader disk path with
  | error e =>
    rw [hread] at h
    cases h
  | ok m =>
    simp only [hread, build, bind, StateT.bind] at h
    rcases hassign : assignIds path m.graphs [] s with ⟨e | ids, u⟩ <;> simp only [hassign] at h
    · cases h
    · obtain ⟨hnames, back, hsame, hback⟩ :=
        assigned_of_assignIds [] List.nodup_nil hassign
      obtain rfl : ids = back := hsame
      have hdraws := (onlyDraws_buildAll disk path ids m.graphs .empty).later h
      have hassigned : Draws s u := ⟨hback.stream, by rw [hback.taken]; exact Nat.le_add_right _ _⟩
      have hids : (ids.map Prod.snd).Nodup := by
        rw [hback.ids]
        apply honce.nodup (Nat.le_refl _)
        rw [← hback.taken]
        exact hdraws.taken
      exact ⟨m, ids, u, rfl, hback.names, hnames, hids, hassigned, h⟩

theorem filled_of_load {s t : IdSupply} {l : Library}
    (h : loadWith reader disk path s = (.ok l, t)) (honce : DrawsOnce s t) :
    ∃ m ids, readWith reader disk path = .ok m ∧
      ids.map Prod.fst = m.graphs.map Section.name ∧ (ids.map Prod.fst).Nodup ∧
      (ids.map Prod.snd).Nodup ∧ Filled ids ids l := by
  obtain ⟨m, ids, u, hread, hmanifest, hnames, hids, _, hbuild⟩ := assigned_of_load h honce
  exact ⟨m, ids, hread, hmanifest, hnames, hids,
    filled_of_buildAll rfl hmanifest hnames hids (filled_empty ids) hbuild⟩

variable {l : Library}

theorem Filled.names (h : Filled ids ids l) : l.graphs.map Graph.name = ids.map Prod.fst := by
  calc l.graphs.map Graph.name =
      (l.entries.map fun entry => (entry.2.name, entry.1)).map Prod.fst := by
        rw [Library.graphs, List.map_map, List.map_map]
        rfl
    _ = ids.map Prod.fst := by rw [h.named]

theorem Filled.get? (h : Filled ids ids l) (hids : (ids.map Prod.snd).Nodup) {g : Graph}
    (hg : g ∈ l.graphs) : l.get? g.id = some g := by
  obtain ⟨entry, hentry, rfl⟩ := List.mem_map.mp hg
  rw [Library.get?, ← h.keyed entry hentry]
  exact Chain.lookup_of_mem (by rwa [h.keys]) hentry

theorem Filled.isSome (h : Filled ids ids l) {key : Uuid} (hkey : key ∈ ids.map Prod.snd) :
    (l.get? key).isSome = true := by
  rw [← h.keys] at hkey
  obtain ⟨entry, hentry, rfl⟩ := List.mem_map.mp hkey
  cases hnone : l.get? entry.1 with
  | some g => rfl
  | none => simpa using List.lookup_eq_none_iff.mp hnone entry hentry

theorem Filled.closed (h : Filled ids ids l) : l.Closed := by
  intro key g n called hg hn hkind
  obtain ⟨before, after, hentries, _⟩ := List.lookup_eq_some_iff.mp hg
  have hmem : g ∈ l.graphs := by
    rw [Library.graphs, hentries]
    simp
  exact h.isSome (h.calls g hmem n hn called hkind)

end

/-- A library that was loaded, in whatever language its manifest is written and with ids that were
drawn once each, has the graphs of the manifest in their order, each under its own name and id and
wired as the editor keeps it. Its subgraph nodes call graphs of the library, so that a chain is
built from any of its graphs unless a story does not compile. -/
theorem loaded_closed (reader : Reader) (disk : Disk) (path : String) {s t : IdSupply} {l : Library}
    (h : loadWith reader disk path s = (.ok l, t)) (honce : DrawsOnce s t) :
    (∃ m, readWith reader disk path = .ok m ∧
      l.graphs.map Graph.name = m.graphs.map Section.name) ∧
    (l.graphs.map Graph.name).Nodup ∧ (l.graphs.map Graph.id).Nodup ∧
    (∀ g ∈ l.graphs, l.get? g.id = some g) ∧ l.Keyed ∧
    (∀ g ∈ l.graphs, ∀ n ∈ g.nodes, ∀ called, n.kind = .subgraph called →
      ∃ h ∈ l.graphs, h.id = called) ∧
    (∀ g ∈ l.graphs, g.Arranged ∧ Graph.Wired g.ids g.connections) ∧
    ∀ compiler, ∀ g ∈ l.graphs, (∃ c, Chain.build compiler l g.id = .ok c) ∨
      ∃ node source, Chain.build compiler l g.id = .error (.compile node source) := by
  obtain ⟨m, ids, hread, hmanifest, hnames, hids, hl⟩ := filled_of_load h honce
  have hgraphIds : l.graphs.map Graph.id = l.entries.map Prod.fst := by
    rw [Library.graphs, List.map_map]
    exact List.map_congr_left fun entry hentry => (hl.keyed entry hentry).symm
  refine ⟨⟨m, hread, hl.names.trans hmanifest⟩, by rwa [hl.names], ?_,
    fun g hg => hl.get? hids hg, hl.keyed, ?_, ?_, ?_⟩
  · rwa [hgraphIds, hl.keys]
  · intro g hg n hn called hkind
    have hcalled := hl.calls g hg n hn called hkind
    rw [← hl.keys, ← hgraphIds] at hcalled
    exact List.mem_map.mp hcalled
  · intro g hg
    obtain ⟨bare, hcreated⟩ := hl.created g hg
    exact ⟨hcreated.sound.arranged, hcreated.sound.wired⟩
  · intro compiler g hg
    refine Chain.build_of_closed compiler hl.closed ?_
    rw [hl.get? hids hg, Option.isSome_some]

/-- Two graphs that name each other. -/
def estate : Disk where
  read _ := .ok ("graphs: [" ++
    "\x7bname: hall, nodes: [\x7btype: subgraph, id: x, graph: cellar\x7d]\x7d, " ++
    "\x7bname: cellar, nodes: [\x7btype: subgraph, id: x, graph: hall\x7d]\x7d]")
  entries? _ := none

theorem load_estate : ((load estate "m.yaml" (.startingAt 1)).1.toOption.map fun l =>
      l.graphs.map fun g => (g.name, g.subgraphs.map Node.kind),
      (load estate "m.yaml" (.startingAt 1)).2.taken) =
    (some [("hall", [.subgraph (.ofNat 2)]), ("cellar", [.subgraph (.ofNat 1)])], 8) := by
  decide +kernel

theorem drawsOnce_startingAt {t : IdSupply} (ht : t.taken ≤ 8) :
    DrawsOnce (.startingAt 1) t := by
  have hdistinct : ∀ j < 8, ∀ i < j, Uuid.ofNat (1 + i) ≠ Uuid.ofNat (1 + j) := by decide
  exact fun i j _ hlt hj => hdistinct j (Nat.lt_of_lt_of_le hj ht) i hlt

/-- The hall is built before the cellar that it names, and the cellar is there all the same. -/
theorem loaded_estate : ∃ l t, load estate "m.yaml" (.startingAt 1) = (.ok l, t) ∧
    DrawsOnce (.startingAt 1) t ∧ l.graphs.map Graph.name = ["hall", "cellar"] ∧
    l.graphs.map (fun g => g.subgraphs.map Node.kind) =
      [[.subgraph (.ofNat 2)], [.subgraph (.ofNat 1)]] ∧
    ∀ g ∈ l.graphs, (∃ c, Chain.build .standard l g.id = .ok c) ∨
      ∃ node source, Chain.build .standard l g.id = .error (.compile node source) := by
  obtain ⟨hloaded, htaken⟩ := Prod.mk.inj load_estate
  rcases hload : load estate "m.yaml" (.startingAt 1) with ⟨e | l, t⟩
  · simp [hload, Except.toOption] at hloaded
  · rw [hload] at hloaded htaken
    have honce : DrawsOnce (.startingAt 1) t := drawsOnce_startingAt (Nat.le_of_eq htaken)
    have hgraphs := Option.some.inj hloaded
    have hnames := congrArg (List.map Prod.fst) hgraphs
    have hcalls := congrArg (List.map Prod.snd) hgraphs
    rw [List.map_map] at hnames hcalls
    obtain ⟨_, _, _, _, _, _, _, hbuild⟩ := loaded_closed ofText? estate "m.yaml" hload honce
    exact ⟨l, t, rfl, honce, hnames, hcalls, hbuild .standard⟩

end Manifest

end Fabula
