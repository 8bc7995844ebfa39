import Mathlib.Data.List.Nodup
import Fabula.Proofs.Graph.Edits

/-!
# Drawing graphs

Making a graph does no more to the supply of ids than draw from it. What is built from a blueprint
has the id and the name that were asked for, and its subgraph nodes call what was declared.
-/

namespace Fabula

namespace IdSupply

/-- Ids were drawn from `s` until it was `t`. -/
structure Draws (s t : IdSupply) : Prop where
  stream : t.stream = s.stream
  taken : s.taken ≤ t.taken

/-- None of the ids that were drawn from `s` until it was `t` was drawn twice. -/
def DrawsOnce (s t : IdSupply) : Prop :=
  ∀ i j, s.taken ≤ i → i < j → j < t.taken → s.stream i ≠ s.stream j

theorem DrawsOnce.nodup {s t : IdSupply} (h : DrawsOnce s t) {first n : Nat}
    (hfirst : s.taken ≤ first) (hlast : first + n ≤ t.taken) :
    ((List.range' first n).map s.stream).Nodup := by
  refine List.Nodup.map_on ?_ List.nodup_range'
  intro i hi j hj heq
  rw [List.mem_range'_1] at hi hj
  rcases Nat.lt_trichotomy i j with hlt | hsame | hlt
  · exact absurd heq (h i j (by omega) hlt (by omega))
  · exact hsame
  · exact absurd heq.symm (h j i (by omega) hlt (by omega))

theorem DrawsOnce.within {s t s' t' : IdSupply} (h : DrawsOnce s t) (hs : Draws s s')
    (ht : Draws t' t) : DrawsOnce s' t' := by
  intro i j hi hlt hj
  rw [hs.stream]
  exact h i j (Nat.le_trans hs.taken hi) hlt (Nat.lt_of_lt_of_le hj ht.taken)

theorem Draws.refl (s : IdSupply) : Draws s s := ⟨rfl, Nat.le_refl _⟩

theorem Draws.trans {s t u : IdSupply} (h : Draws s t) (h' : Draws t u) : Draws s u :=
  ⟨h'.stream.trans h.stream, Nat.le_trans h.taken h'.taken⟩

/-- Whatever the supply, the computation does no more to it than draw ids. -/
def OnlyDraws {α : Type} (x : Drawing α) : Prop := ∀ s, Draws s (x s).2

section
variable {α β : Type}

theorem onlyDraws_pure (a : α) : OnlyDraws (pure a : Drawing α) := Draws.refl

theorem onlyDraws_fresh : OnlyDraws fresh := fun _ => ⟨rfl, Nat.le_succ _⟩

theorem OnlyDraws.bind {x : Drawing α} {f : α → Drawing β} (hx : OnlyDraws x)
    (hf : ∀ a, OnlyDraws (f a)) : OnlyDraws (x >>= f) :=
  fun s => (hx s).trans (hf (x s).1 (x s).2)

theorem OnlyDraws.later {x : Drawing α} (hx : OnlyDraws x) {s t : IdSupply} {a : α}
    (h : x s = (a, t)) : Draws s t := by
  have hs := hx s
  rwa [h] at hs

end

end IdSupply

open IdSupply (OnlyDraws onlyDraws_pure onlyDraws_fresh)

namespace Graph

theorem onlyDraws_make (id : Option Uuid) (name : String) : OnlyDraws (make id name) := by
  unfold make
  cases id with
  | some id =>
    exact .bind (onlyDraws_pure id) fun _ => .bind onlyDraws_fresh fun _ =>
      .bind onlyDraws_fresh fun _ => onlyDraws_pure _
  | none =>
    exact .bind onlyDraws_fresh fun _ => .bind onlyDraws_fresh fun _ =>
      .bind onlyDraws_fresh fun _ => onlyDraws_pure _

theorem exists_connections_of_connect {g h : Graph} {c : Connection} {added : Bool}
    (hconnect : g.connect c = .ok (added, h)) : ∃ cs, h = { g with connections := cs } := by
  have htried := exists_connections_of_tryConnect g c
  rwa [connect_eq_ok_iff.mp hconnect] at htried

theorem mem_of_connect_eq_ok {g h : Graph} {c : Connection} {added : Bool}
    (hconnect : g.connect c = .ok (added, h)) (d : Connection) :
    d ∈ h.connections ↔ d ∈ g.connections ∨ d = c := by
  have hconnects := connects g c
  rw [connect_eq_ok_iff.mp hconnect] at hconnects
  cases hconnects with
  | present _ _ hc =>
    constructor
    · exact .inl
    · intro hd
      rcases hd with hd | hd
      · exact hd
      · exact hd ▸ hc
  | added => simp

/-- In an arranged graph the subgraph nodes are where they belong. -/
theorem Arranged.mem_subgraphs {g : Graph} (hg : g.Arranged) {n : Node} {called : Uuid}
    (hn : n ∈ g.nodes) (hkind : n.kind = .subgraph called) : n ∈ g.subgraphs := by
  rcases mem_nodes.mp hn with rfl | rfl | hn | hn
  · simp [hg.start] at hkind
  · simp [hg.finish] at hkind
  · have hstory := hg.stories n hn
    simp [Node.isStory, hkind] at hstory
  · exact hn

end Graph

namespace Blueprint

theorem onlyDraws_declare (g : Graph) (aliases : Aliases) (d : Declaration) :
    OnlyDraws (declare g aliases d) :=
  .bind onlyDraws_fresh fun _ => by cases d <;> exact onlyDraws_pure _

theorem onlyDraws_declareAll (g : Graph) (aliases : Aliases) (ds : List Declaration) :
    OnlyDraws (declareAll g aliases ds) := by
  induction ds generalizing g aliases with
  | nil => exact onlyDraws_pure _
  | cons d rest ih => exact .bind (onlyDraws_declare g aliases d) fun p => ih p.1 p.2

theorem onlyDraws_build (b : Blueprint) : OnlyDraws b.build :=
  .bind (Graph.onlyDraws_make b.id b.name) fun _ =>
    .bind (onlyDraws_declareAll _ _ b.declarations) fun _ => onlyDraws_pure _

/-- What declarations leave of a graph: its id and its name, and its subgraph nodes call what was
declared. -/
structure Declared (g h : Graph) (ds : List Declaration) : Prop where
  id : h.id = g.id
  name : h.name = g.name
  calls : ∀ n ∈ h.subgraphs, n ∈ g.subgraphs ∨
    ∃ name called, .subgraph name called ∈ ds ∧ n.kind = .subgraph called

theorem declared_declare (g : Graph) (aliases : Aliases) (d : Declaration) (s : IdSupply) :
    Declared g (declare g aliases d s).1.1 [d] := by
  cases d with
  | story name story position => exact ⟨rfl, rfl, fun n hn => .inl hn⟩
  | subgraph name called =>
    refine ⟨rfl, rfl, fun n hn => ?_⟩
    rcases List.mem_append.mp hn with hold | hnew
    · exact .inl hold
    · obtain rfl := List.mem_singleton.mp hnew
      exact .inr ⟨name, called, List.mem_cons_self, rfl⟩

theorem declared_declareAll (g : Graph) (aliases : Aliases) (ds : List Declaration)
    (s : IdSupply) : Declared g (declareAll g aliases ds s).1.1 ds := by
  induction ds generalizing g aliases s with
  | nil => exact ⟨rfl, rfl, fun n hn => .inl hn⟩
  | cons d rest ih =>
    have hfirst := declared_declare g aliases d s
    have hrest := ih (declare g aliases d s).1.1 (declare g aliases d s).1.2
      (declare g aliases d s).2
    refine ⟨hrest.id.trans hfirst.id, hrest.name.trans hfirst.name, fun n hn => ?_⟩
    rcases hrest.calls n hn with hn | ⟨name, called, hd, hkind⟩
    · rcases hfirst.calls n hn with hn | ⟨name, called, hd, hkind⟩
      · exact .inl hn
      · obtain rfl := List.mem_singleton.mp hd
        exact .inr ⟨name, called, List.mem_cons_self, hkind⟩
    · exact .inr ⟨name, called, List.mem_cons_of_mem d hd, hkind⟩

theorem connectAll_eq_ok {aliases : Aliases} {links : List Link} {g h : Graph}
    (hlinks : connectAll aliases links g = .ok h) : ∃ cs, h = { g with connections := cs } := by
  induction links generalizing g with
  | nil =>
    obtain rfl := Except.ok.inj hlinks
    exact ⟨_, rfl⟩
  | cons link rest ih =>
    rw [connectAll] at hlinks
    obtain ⟨source, _, hlinks⟩ := Graph.exists_of_bind_eq_ok hlinks
    obtain ⟨target, _, hlinks⟩ := Graph.exists_of_bind_eq_ok hlinks
    obtain ⟨⟨added, k⟩, hconnect, hlinks⟩ := Graph.exists_of_bind_eq_ok hlinks
    obtain ⟨cs, rfl⟩ := Graph.exists_connections_of_connect hconnect
    obtain ⟨cs, rfl⟩ := ih hlinks
    exact ⟨cs, rfl⟩

/-- A graph that is built under an id has it, and the name of its blueprint, and it calls nothing
that was not declared. -/
theorem declared_of_build {b : Blueprint} {id : Uuid} {g : Graph} {s : IdSupply}
    (hid : b.id = some id) (h : (b.build s).1 = .ok g) : g.id = id ∧ g.name = b.name ∧
      ∀ n ∈ g.nodes, ∀ called, n.kind = .subgraph called →
        ∃ name, .subgraph name called ∈ b.declarations := by
  have harranged := (Graph.Created.built h).sound.arranged
  have hmake : (Graph.make b.id b.name s).1 =
      .bare id (s.stream s.taken) (s.stream (s.taken + 1)) b.name := by
    rw [hid]
    rfl
  have hdeclared := declared_declareAll (Graph.make b.id b.name s).1
    [("end", (Graph.make b.id b.name s).1.finish.id),
      ("start", (Graph.make b.id b.name s).1.start.id)]
    b.declarations (Graph.make b.id b.name s).2
  obtain ⟨cs, rfl⟩ := connectAll_eq_ok h
  refine ⟨hdeclared.id.trans (by rw [hmake]; rfl), hdeclared.name.trans (by rw [hmake]; rfl),
    fun n hn called hkind => ?_⟩
  rcases hdeclared.calls n (harranged.mem_subgraphs hn hkind) with hn | ⟨name, other, hd, hother⟩
  · simp [hmake, Graph.bare] at hn
  · obtain rfl := NodeKind.subgraph.inj (hkind.symm.trans hother)
    exact ⟨name, hd⟩

end Blueprint

end Fabula
