import Fabula.Proofs.Chain.Stations
import Fabula.Proofs.Chain.Walker

/-!
# Footing

A chain that was built never loses its footing. Whatever it is asked for, and also after calls that
failed, it stands on a place of a built graph, its returns are places to which calls come back,
and a walk fails only for its length or for the depth of its calls.
-/

namespace Fabula.Chain

/-- What a host asks of a chain. -/
inductive Move where
  | reset
  | next
  | leave (outlet : String)
deriving DecidableEq

def make (c : Chain) : Move → Except ChainError Step × Chain
  | .reset => c.reset
  | .next => c.next
  | .leave outlet => c.leaveBy outlet

/-- The chain after moves, those that failed included. -/
def after (c : Chain) (moves : List Move) : Chain := moves.foldl (fun d m => (d.make m).2) c

/-- There is a node at the place. -/
def Occupied (c : Chain) (t : Target) : Prop :=
  ∃ nodes, c.nodes? t.graph = some nodes ∧ t.index < nodes.length

/-- There is a node at the place, or it is the first of a graph without nodes. -/
def Standable (c : Chain) (t : Target) : Prop :=
  c.Occupied t ∨ c.nodes? t.graph = some [] ∧ t.index = 0

/-- A call comes back to the place. -/
def ComesBack (c : Chain) (t : Target) : Prop :=
  ∃ entry ∈ c.graphs, ∃ n ∈ entry.2, ∃ called,
    n.kind = .subgraph called ∧ n.branch? defaultOutlet = some t

/-- How the cursor `d` stands in the chain `c`. -/
structure Footing (c d : Chain) : Prop where
  root : d.root = c.root
  graphs : d.graphs = c.graphs
  depth : d.stack.length ≤ maxCallDepth
  returns : ∀ t ∈ d.stack, c.ComesBack t ∧ c.Occupied t
  position : c.Standable d.current
  ended : d.ended = true → d.stack = []

/-- A walk came on too deep or went on too long. -/
def Overrun (e : ChainError) : Prop :=
  e = .callDepthExceeded maxCallDepth ∨ e = .noProgress maxTransferHops

section
variable {compiler : Script.Compiler} {l : Library} {root : Uuid} {c : Chain}

theorem Linked.target_lt {g : Graph} {nodes : List ChainNode} {n : ChainNode} {t : Target}
    (h : Linked g (ids nodes) n) (ht : t ∈ n.branches.map Prod.snd) :
    t.graph = g.id ∧ t.index < nodes.length := by
  obtain ⟨⟨outlet, u⟩, hbranch, rfl⟩ := List.mem_map.mp ht
  have hopen : n.kind ≠ .finish := by
    intro hfinish
    rw [h.finish hfinish] at hbranch
    exact List.not_mem_nil hbranch
  have hrel := h.branch hopen outlet
  rw [ChainNode.branch?, lookup_of_mem h.nodup hbranch] at hrel
  generalize g.next? n.node outlet = next at hrel
  cases hrel with
  | some hstands =>
    obtain ⟨hlt, _⟩ := List.getElem?_eq_some_iff.mp hstands.2
    exact ⟨hstands.1, by simpa [ids] using hlt⟩

theorem standable_first {all : List Uuid} {key : Uuid}
    (hp : Progress compiler l root [] all c.graphs) (hkey : key ∈ all) :
    c.Standable ⟨key, 0⟩ := by
  obtain ⟨_, nodes, _, hmem, _⟩ := hp.flat_of_mem hkey
  have hnodes : c.nodes? key = some nodes := lookup_of_mem hp.nodup_built hmem
  cases nodes with
  | nil => exact .inr ⟨hnodes, rfl⟩
  | cons n rest => exact .inl ⟨_, hnodes, Nat.zero_lt_succ _⟩

theorem occupied_branch {all : List Uuid} {entry : Uuid × List ChainNode} {n : ChainNode}
    {t : Target} (hl : l.Keyed) (hp : Progress compiler l root [] all c.graphs)
    (hentry : entry ∈ c.graphs) (hn : n ∈ entry.2) (ht : t ∈ n.branches.map Prod.snd) :
    c.Occupied t := by
  have hnodes : c.graphs.lookup entry.1 = some entry.2 := lookup_of_mem hp.nodup_built hentry
  obtain ⟨g, hg, hholds⟩ := hp.holds hnodes
  obtain ⟨hgraph, hlt⟩ := (hholds.linked n hn).target_lt ht
  rw [hl.id_eq hg] at hgraph
  exact ⟨entry.2, by rw [nodes?, hgraph, hnodes], hlt⟩

theorem standable_of_mem_places (hl : l.Keyed) (h : build compiler l root = .ok c) :
    ∀ t ∈ c.places, c.Standable t := by
  intro t ht
  obtain ⟨all, hp⟩ := progress_of_build h
  rcases List.mem_cons.mp ht with rfl | ht
  · rw [root_of_build h]
    exact standable_first hp hp.root_seen
  · obtain ⟨entry, hentry, ht⟩ := List.mem_flatMap.mp ht
    obtain ⟨n, hn, ht⟩ := List.mem_flatMap.mp ht
    rcases List.mem_append.mp ht with hbranch | hcalled
    · exact .inl (occupied_branch hl hp hentry hn hbranch)
    · cases hkind : n.kind with
      | subgraph called =>
        rw [hkind] at hcalled
        obtain rfl := List.mem_singleton.mp hcalled
        exact standable_first hp
          (hp.closed entry hentry called (mem_references.mpr ⟨n, hn, hkind⟩))
      | story source script names => simp [hkind] at hcalled
      | finish => simp [hkind] at hcalled

theorem occupied_of_comesBack (hl : l.Keyed) (h : build compiler l root = .ok c) {t : Target}
    (ht : c.ComesBack t) : c.Occupied t := by
  obtain ⟨all, hp⟩ := progress_of_build h
  obtain ⟨entry, hentry, n, hn, _, _, hbranch⟩ := ht
  obtain ⟨before, after, hbranches, _⟩ := List.lookup_eq_some_iff.mp hbranch
  refine occupied_branch hl hp hentry hn ?_
  rw [hbranches]
  simp

end

/-- There is a place for whatever the nodes of a chain name. -/
structure Firm (c : Chain) : Prop where
  places : ∀ t ∈ c.places, c.Standable t
  returns : ∀ t, c.ComesBack t → c.Occupied t

/-- A walk has come to `d`, and calls have put its returns on the stack. -/
structure Calling (c d : Chain) : Prop where
  walked : Walked c d
  returns : ∀ t ∈ d.stack, c.ComesBack t
  ended : d.ended = true → d.stack = []

/-- What an answer says about the cursor after it. -/
structure Sound (c : Chain) (answer : Except ChainError Step × Chain) : Prop where
  footing : Footing c answer.2
  story : ∀ script, answer.1 = .ok (.story script) → ∃ node source names branches,
    answer.2.currentNode? = some ⟨node, .story source script names, branches⟩
  overrun : ∀ e, answer.1 = .error e → Overrun e

section
variable {c d d' : Chain} {r : Except ChainError Step × Chain}

theorem comesBack_of_call {t u : Target} {called : Uuid}
    (h : c.arrival t = .ok (.call called (some u))) : c.ComesBack u := by
  unfold arrival at h
  rcases hat : c.nodeAt t with e | (_ | n) <;> rw [hat] at h
  · simp at h
  · simp at h
  · obtain ⟨nodes, hnodes, hn⟩ := mem_of_nodeAt hat
    cases hkind : n.kind with
    | story source script names => simp [hkind] at h
    | finish => simp [hkind] at h
    | subgraph key =>
      simp only [hkind, Except.ok.injEq, Arrival.call.injEq] at h
      exact ⟨_, hnodes, n, hn, key, hkind, h.2⟩

theorem Standable.exists_nodeAt {t : Target} (h : c.Standable t) :
    ∃ met, c.nodeAt t = .ok met := by
  rcases h with ⟨nodes, hnodes, _⟩ | ⟨hnodes, _⟩ <;> exact ⟨_, by rw [nodeAt, hnodes]⟩

theorem currentNode?_of_nodeAt {met : Option ChainNode} (h : d.nodeAt d.current = .ok met) :
    d.currentNode? = met := by
  unfold nodeAt at h
  unfold currentNode?
  cases hnodes : d.nodes? d.current.graph with
  | none => simp [hnodes] at h
  | some nodes =>
    rw [hnodes] at h
    exact Except.ok.inj h

namespace Calling

theorem footing (hc : Firm c) (h : Calling c d) : Footing c d where
  root := h.walked.root
  graphs := h.walked.graphs
  depth := h.walked.depth
  returns := fun t ht => ⟨h.returns t ht, hc.returns t (h.returns t ht)⟩
  position := hc.places _ h.walked.current
  ended := h.ended

theorem exists_nodeAt (hc : Firm c) (h : Calling c d) : ∃ met, d.nodeAt d.current = .ok met := by
  rw [h.walked.nodeAt_eq]
  exact (hc.places _ h.walked.current).exists_nodeAt

theorem leads {t : Target} (h : Calling c d) (hopen : d.ended = false) (hleads : Leads d t d') :
    Calling c d' ∧ d'.ended = false ∧ t ∈ c.places := by
  obtain ⟨hwalked, ht⟩ := h.walked.leads hleads
  have hstill := hleads.keeps.2.2.2.trans hopen
  refine ⟨⟨hwalked, ?_, fun hended => by simp [hstill] at hended⟩, hstill, ht⟩
  cases hleads with
  | call hat hpush =>
    rw [h.walked.arrival_eq] at hat
    rcases pushReturn_eq_ok hpush with ⟨_, rfl⟩ | ⟨u, rfl, _, rfl⟩
    · exact h.returns
    · intro v hv
      rcases List.mem_cons.mp hv with rfl | hv
      · exact comesBack_of_call hat
      · exact h.returns v hv
  | back _ hstack =>
    intro v hv
    apply h.returns
    rw [hstack]
    exact List.mem_cons_of_mem t hv

-- By induction on the hops. A cursor that hops has not ended, so nothing is owed for the end.
theorem hops (h : Calling c d) (hopen : d.ended = false)
    (hwalk : Relation.ReflTransGen Hops d d') : Calling c d' ∧ d'.ended = false := by
  induction hwalk with
  | refl => exact ⟨h, hopen⟩
  | tail _ hhop ih =>
    obtain ⟨t, e, hleads, rfl⟩ := hhop
    obtain ⟨hcalling, hstill⟩ := ih
    obtain ⟨hcalling, hstill, ht⟩ := hcalling.leads hstill hleads
    exact ⟨⟨hcalling.walked.move ht, hcalling.returns, hcalling.ended⟩, hstill⟩

theorem stops (hc : Firm c) (h : Calling c d) (hopen : d.ended = false) (hstops : Stops d r) :
    Calling c r.2 ∧ Sound c r := by
  obtain ⟨met, hmet⟩ := h.exists_nodeAt hc
  have hwalked := h.walked.stops hstops
  cases hstops with
  | lost hat =>
    -- There is a node wherever a walk comes to.
    rw [arrival, hmet] at hat
    rcases met with _ | n
    · simp at hat
    · cases hkind : n.kind <;> simp [hkind] at hat
  | story hat =>
    refine ⟨h, h.footing hc, ?_, by simp⟩
    intro script hscript
    obtain rfl := Step.story.inj (Except.ok.inj hscript)
    obtain ⟨⟨node, kind, branches⟩, rfl, source, names, rfl⟩ := story_of_arrival hmet hat
    exact ⟨node, source, names, branches, currentNode?_of_nodeAt hmet⟩
  | tooDeep _ hpush =>
    refine ⟨h, h.footing hc, by simp, ?_⟩
    intro e he
    obtain rfl := Except.error.inj he
    exact .inl (pushReturn_eq_error hpush)
  | tooLong hleads =>
    obtain ⟨hcalling, _, _⟩ := h.leads hopen hleads
    refine ⟨hcalling, hcalling.footing hc, by simp, ?_⟩
    intro e he
    exact .inr (Except.error.inj he).symm
  | ended _ hstack =>
    have hcalling : Calling c { d with ended := true } := ⟨hwalked, h.returns, fun _ => hstack⟩
    exact ⟨hcalling, hcalling.footing hc, by simp, by simp⟩

theorem enter {t : Target} (hc : Firm c) (h : Calling c d) (hopen : d.ended = false)
    (ht : t ∈ c.places) :
    Calling c (d.enter maxTransferHops t).2 ∧ Sound c (d.enter maxTransferHops t) := by
  have hmoved : Calling c { d with current := t } := ⟨h.walked.move ht, h.returns, h.ended⟩
  obtain ⟨e, hwalk, hstops⟩ := exists_stops t d
  obtain ⟨hcalling, hstill⟩ := hmoved.hops hopen hwalk
  exact hcalling.stops hc hstill hstops

theorem leaveBy (hc : Firm c) (h : Calling c d) (outlet : String) :
    Calling c (d.leaveBy outlet).2 ∧ Sound c (d.leaveBy outlet) := by
  have hleaves := leaves_leaveBy d outlet
  generalize d.leaveBy outlet = answer at hleaves
  cases hleaves with
  | ended | stays => exact ⟨h, h.footing hc, by simp, by simp⟩
  | lost _ hat =>
    obtain ⟨met, hmet⟩ := h.exists_nodeAt hc
    simp [hmet] at hat
  | enters hopen honward => exact h.enter hc hopen (h.walked.onward honward)

theorem reset (hc : Firm c) (h : Calling c d) : Calling c d.reset.2 ∧ Sound c d.reset := by
  have hcleared : Calling c { d with stack := [], ended := false } :=
    ⟨⟨h.walked.root, h.walked.graphs, h.walked.current, by simp, Nat.zero_le _⟩, by simp, by simp⟩
  refine hcleared.enter hc rfl ?_
  rw [h.walked.root]
  exact List.mem_cons_self

theorem make (hc : Firm c) (h : Calling c d) (m : Move) :
    Calling c (d.make m).2 ∧ Sound c (d.make m) := by
  cases m with
  | reset => exact h.reset hc
  | next => exact h.leaveBy hc defaultOutlet
  | leave outlet => exact h.leaveBy hc outlet

theorem after (hc : Firm c) (h : Calling c d) (moves : List Move) : Calling c (d.after moves) := by
  induction moves generalizing d with
  | nil => exact h
  | cons m moves ih => exact ih (h.make hc m).1

end Calling

theorem make_of_ended (h : d.ended = true) {m : Move} (hm : m ≠ .reset) :
    d.make m = (.ok .ended, d) := by
  cases m with
  | reset => exact absurd rfl hm
  | next => simp [make, next, leaveBy, h]
  | leave outlet => simp [make, leaveBy, h]

theorem after_of_ended (h : d.ended = true) {moves : List Move} (hmoves : .reset ∉ moves) :
    d.after moves = d := by
  induction moves with
  | nil => rfl
  | cons m moves ih =>
    obtain ⟨hm, hmoves⟩ := not_or.mp fun hor => hmoves (List.mem_cons.mpr hor)
    rw [after, List.foldl_cons, make_of_ended h (Ne.symm hm)]
    exact ih hmoves

end

section
variable {compiler : Script.Compiler} {l : Library} {root : Uuid} {c : Chain}

theorem firm_of_build (hl : l.Keyed) (h : build compiler l root = .ok c) : Firm c :=
  ⟨standable_of_mem_places hl h, fun _ => occupied_of_comesBack hl h⟩

theorem calling_of_build (h : build compiler l root = .ok c) : Calling c c := by
  obtain ⟨_, hstack, _, _⟩ := opening_of_build h
  exact ⟨walked_of_build h, by simp [hstack], fun _ => hstack⟩

/-- Whatever a built chain was asked for, it keeps its footing, and so does whatever it is asked
for next; at its end it stays until it is reset. -/
theorem keeps_footing (compiler : Script.Compiler) (l : Library) (hl : l.Keyed) (root : Uuid)
    {c : Chain} (h : build compiler l root = .ok c) (moves : List Move) :
    Footing c (c.after moves) ∧ (∀ m, Sound c ((c.after moves).make m)) ∧
    ((c.after moves).ended = true → ∀ more, .reset ∉ more →
      c.after (moves ++ more) = c.after moves ∧
      ∀ m ≠ .reset, (c.after (moves ++ more)).make m = (.ok .ended, c.after (moves ++ more))) := by
  have hc := firm_of_build hl h
  have hcalling := (calling_of_build h).after hc moves
  refine ⟨hcalling.footing hc, fun m => (hcalling.make hc m).2, ?_⟩
  intro hended more hmore
  have hsame : c.after (moves ++ more) = c.after moves := by
    rw [after, List.foldl_append]
    exact after_of_ended hended hmore
  refine ⟨hsame, ?_⟩
  intro m hm
  rw [hsame]
  exact make_of_ended hended hm

end

/-- A story before a graph that calls itself. The story after it is never reached. -/
def spiral : Library := ⟨[
  (.ofNat 1, { Graph.bare (.ofNat 1) (.ofNat 2) (.ofNat 3) "outer" with
    stories := [
      .ofKind (.ofNat 4) (.story ⟨⟨"a", "[Char] Ann\n: one\nAnn: two"⟩, ["Anna"]⟩),
      .ofKind (.ofNat 5) (.story ⟨⟨"b", ": never"⟩, []⟩)]
    subgraphs := [.ofKind (.ofNat 6) (.subgraph (.ofNat 7))]
    connections := [
      ⟨.ofNat 2, defaultOutlet, .ofNat 4, defaultOutlet⟩,
      ⟨.ofNat 4, defaultOutlet, .ofNat 6, defaultOutlet⟩,
      ⟨.ofNat 6, defaultOutlet, .ofNat 5, defaultOutlet⟩] }),
  (.ofNat 7, { Graph.bare (.ofNat 7) (.ofNat 8) (.ofNat 9) "inner" with
    subgraphs := [.ofKind (.ofNat 10) (.subgraph (.ofNat 7))]
    connections := [
      ⟨.ofNat 8, defaultOutlet, .ofNat 10, defaultOutlet⟩,
      ⟨.ofNat 10, defaultOutlet, .ofNat 9, defaultOutlet⟩] })]⟩

theorem keyed_spiral : spiral.Keyed := by
  intro entry hentry
  simp only [spiral, List.mem_cons, List.not_mem_nil, or_false] at hentry
  rcases hentry with rfl | rfl <;> rfl

def spiralScript : Script := ⟨"a", [.say ⟨"", "", "one"⟩, .say ⟨"Ann", "", "two"⟩], ["Ann"], [], []⟩

def spiralChain : Chain where
  root := .ofNat 1
  graphs := [
    (.ofNat 1, [
      ⟨.ofNat 4, .story ⟨"a", "[Char] Ann\n: one\nAnn: two"⟩ spiralScript ["Anna"],
        [(defaultOutlet, ⟨.ofNat 1, 1⟩)]⟩,
      ⟨.ofNat 6, .subgraph (.ofNat 7), [(defaultOutlet, ⟨.ofNat 1, 2⟩)]⟩,
      ⟨.ofNat 5, .story ⟨"b", ": never"⟩ ⟨"b", [.say ⟨"", "", "never"⟩], [], [], []⟩ [], []⟩]),
    (.ofNat 7, [
      ⟨.ofNat 10, .subgraph (.ofNat 7), [(defaultOutlet, ⟨.ofNat 7, 1⟩)]⟩,
      ⟨.ofNat 9, .finish, []⟩])]
  stack := []
  current := ⟨.ofNat 1, 0⟩
  ended := false

theorem build_spiral : build .standard spiral (.ofNat 1) = .ok spiralChain := by rfl

-- Each call of the inner graph puts its finish on the stack until that is full.
theorem enter_spiral (k hops : Nat) {stack : List Target} (t : Target)
    (hdepth : stack.length + k = maxCallDepth) :
    enter (hops + k + 1) ⟨.ofNat 7, 0⟩ { spiralChain with stack, current := t } =
      (.error (.callDepthExceeded maxCallDepth),
        { spiralChain with
          stack := List.replicate k ⟨.ofNat 7, 1⟩ ++ stack
          current := ⟨.ofNat 7, 0⟩ }) := by
  have hcall : arrival { spiralChain with stack, current := ⟨.ofNat 7, 0⟩ } ⟨.ofNat 7, 0⟩ =
      .ok (.call (.ofNat 7) (some ⟨.ofNat 7, 1⟩)) := rfl
  induction k generalizing stack t with
  | zero =>
    have hfull : maxCallDepth ≤ stack.length := Nat.le_of_eq hdepth.symm
    simp only [enter, hcall, pushReturn, if_pos hfull]
    rfl
  | succ k ih =>
    have hfree : ¬ maxCallDepth ≤ stack.length := by omega
    have hrest := @ih (⟨.ofNat 7, 1⟩ :: stack) ⟨.ofNat 7, 0⟩ (by rw [List.length_cons]; omega) rfl
    rw [enter]
    simp only [hcall, pushReturn, if_neg hfree]
    rw [← Nat.add_assoc, hrest, List.replicate_succ']
    simp

/-- The chain when the calls have become too deep. -/
def spiralBottom : Chain :=
  { spiralChain with
    stack := List.replicate 255 ⟨.ofNat 7, 1⟩ ++ [⟨.ofNat 1, 2⟩]
    current := ⟨.ofNat 7, 0⟩ }

theorem length_spiralBottom : spiralBottom.stack.length = maxCallDepth := by
  rw [spiralBottom, List.length_append, List.length_replicate]
  rfl

theorem next_spiral :
    spiralChain.next = (.error (.callDepthExceeded maxCallDepth), spiralBottom) := by
  have hcall : arrival { spiralChain with current := ⟨.ofNat 1, 1⟩ } ⟨.ofNat 1, 1⟩ =
      .ok (.call (.ofNat 7) (some ⟨.ofNat 1, 2⟩)) := rfl
  have hhops : maxTransferHops = 767 + 255 + 1 + 1 := rfl
  rw [next, leaveBy_of_branch rfl rfl rfl, hhops, enter]
  simp only [hcall, pushReturn]
  exact enter_spiral 255 767 ⟨.ofNat 1, 1⟩ rfl

/-- The calls become too deep, which takes the cursor off the story. -/
theorem footing_in_spiral :
    let moves := [.reset, .next]
    spiral.Keyed ∧ build .standard spiral (.ofNat 1) = .ok spiralChain ∧
    spiralChain.make .reset = (.ok (.story spiralScript), spiralChain) ∧
    (spiralChain.make .next).1 = .error (.callDepthExceeded maxCallDepth) ∧
    spiralChain.after moves = spiralBottom ∧ spiralBottom.stack.length = maxCallDepth ∧
    Footing spiralChain (spiralChain.after moves) ∧
    ∀ m, Sound spiralChain ((spiralChain.after moves).make m) := by
  intro moves
  have h := keeps_footing .standard spiral keyed_spiral (.ofNat 1) build_spiral moves
  have hreset : spiralChain.make .reset = (.ok (.story spiralScript), spiralChain) := rfl
  have hafter : spiralChain.after moves = spiralChain.next.2 := by
    rw [after, List.foldl_cons, hreset]
    rfl
  refine ⟨keyed_spiral, build_spiral, hreset, ?_, ?_, length_spiralBottom, h.1, h.2.1⟩
  · rw [make, next_spiral]
  · rw [hafter, next_spiral]

end Fabula.Chain
