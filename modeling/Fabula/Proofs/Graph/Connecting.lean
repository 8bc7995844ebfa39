import Mathlib.Data.List.Nodup
import Fabula.Proofs.Graph.Pruned

/-!
# Connecting

A connection is checked for its two ends, for an equal one and for a free outlet, in this order.
What comes of it is one of five outcomes, and only one of them changes the graph: that one is undone
by disconnecting. In a graph that a host made and edited the way back is open as well, because no
other connection leaves by a named outlet.
-/

namespace Fabula.Graph

section
variable {g h : Graph} {c : Connection}

theorem tryConnect_eq_unknownNode_iff :
    (∃ id, (g.tryConnect c).1 = .error (.unknownNode id)) ↔ c.source ∉ g.ids ∨ c.target ∉ g.ids := by
  have hconnects := connects g c
  generalize g.tryConnect c = outcome at hconnects
  cases hconnects <;> simp_all

theorem tryConnect_eq_present_iff : (g.tryConnect c).1 = .ok false ↔
    c.source ∈ g.ids ∧ c.target ∈ g.ids ∧ c ∈ g.connections := by
  have hconnects := connects g c
  generalize g.tryConnect c = outcome at hconnects
  cases hconnects <;> simp_all

theorem tryConnect_eq_outletOccupied_iff :
    (∃ node outlet, (g.tryConnect c).1 = .error (.outletOccupied node outlet)) ↔
      c.source ∈ g.ids ∧ c.target ∈ g.ids ∧ c ∉ g.connections ∧ g.Occupied c := by
  have hconnects := connects g c
  generalize g.tryConnect c = outcome at hconnects
  cases hconnects <;> simp_all

theorem tryConnect_eq_added_iff : g.tryConnect c = (.ok true, h) ↔
    c.source ∈ g.ids ∧ c.target ∈ g.ids ∧ c ∉ g.connections ∧ ¬g.Occupied c ∧
      h = { g with connections := g.connections ++ [c] } := by
  have hconnects := connects g c
  generalize g.tryConnect c = outcome at hconnects
  cases hconnects <;> simp_all [eq_comm]

/-- Every check comes before the one change. -/
theorem tryConnect_of_not_added (h : (g.tryConnect c).1 ≠ .ok true) : (g.tryConnect c).2 = g := by
  have hconnects := connects g c
  generalize g.tryConnect c = outcome at hconnects h
  cases hconnects with
  | noSource | noTarget | present | occupied => rfl
  | added => exact absurd rfl h

/-- Disconnecting takes every connection that is equal to `c`: after `c` was added that is one. -/
theorem disconnect_of_added (hadded : (g.tryConnect c).1 = .ok true) :
    (g.tryConnect c).2.disconnect c = (true, g) := by
  have houtcome : g.tryConnect c = (.ok true, (g.tryConnect c).2) := Prod.ext hadded rfl
  obtain ⟨_, _, hnew, _, hafter⟩ := tryConnect_eq_added_iff.mp houtcome
  have hkept : (g.connections ++ [c]).filter (fun d => d != c) = g.connections := by
    rw [List.filter_append, List.filter_eq_self.mpr]
    · simp
    · intro d hd
      exact bne_iff_ne.mpr fun hsame => hnew (hsame ▸ hd)
  rw [hafter]
  simp [disconnect, hkept]

theorem disconnect_eq_erase (hnodup : g.connections.Nodup) :
    (g.disconnect c).2 = { g with connections := g.connections.erase c } := by
  rw [hnodup.erase_eq_filter]
  rfl

/-- An outlet that a connection has to itself is free without it. -/
theorem Wired.free_erase {ids : List Uuid} {cs : List Connection} (h : Wired ids cs) (hc : c ∈ cs)
    (hnamed : c.outlet ≠ defaultOutlet) :
    ∀ d ∈ cs.erase c, d.source = c.source → d.outlet ≠ c.outlet := by
  intro d hd hsource houtlet
  have hsingle := h.single c.source c.outlet hnamed
  rw [(List.perm_cons_erase hc).countP_eq, List.countP_cons_of_pos (by simp)] at hsingle
  have hnone := Nat.le_zero.mp (Nat.le_of_succ_le_succ hsingle)
  have hother := List.countP_eq_zero.mp hnone d hd
  simp [hsource, houtlet] at hother

theorem connect_after_disconnect (hg : Wired g.ids g.connections) (hc : c ∈ g.connections) :
    (g.disconnect c).2.tryConnect c =
      (.ok true, { g with connections := g.connections.erase c ++ [c] }) := by
  obtain ⟨hsource, htarget⟩ := hg.joined c hc
  rw [disconnect_eq_erase hg.distinct]
  apply tryConnect_eq_added_iff.mpr
  refine ⟨hsource, htarget, ?_, ?_, rfl⟩
  · exact hg.distinct.not_mem_erase
  · intro hoccupied
    obtain ⟨hnamed, d, hd, hsame, houtlet⟩ := hoccupied
    exact hg.free_erase hc hnamed d hd hsame houtlet

end

theorem Authored.wired {g : Graph} (h : g.Authored) : Wired g.ids g.connections := by
  obtain ⟨bare, made, edits, hcreated, rfl⟩ := h
  exact (hcreated.sound.editAll edits).wired

/-- In a graph that a host made and edited, a connection that is refused or there already leaves
the graph as it is, one that is added is taken away again by disconnecting, and one that was taken
away is added again, at the end. The ends, an equal connection and the outlet decide in this order
which it is. -/
theorem connect_and_back {g : Graph} (hg : g.Authored) (c : Connection) :
    ((∃ e, (g.tryConnect c).1 = .error e) ∨ (g.tryConnect c).1 = .ok false →
      (g.tryConnect c).2 = g) ∧
    ((g.tryConnect c).1 = .ok true → (g.tryConnect c).2.disconnect c = (true, g)) ∧
    ((∃ id, (g.tryConnect c).1 = .error (.unknownNode id)) ↔
      c.source ∉ g.ids ∨ c.target ∉ g.ids) ∧
    ((g.tryConnect c).1 = .ok false ↔
      c.source ∈ g.ids ∧ c.target ∈ g.ids ∧ c ∈ g.connections) ∧
    ((∃ node outlet, (g.tryConnect c).1 = .error (.outletOccupied node outlet)) ↔
      c.source ∈ g.ids ∧ c.target ∈ g.ids ∧ c ∉ g.connections ∧ g.Occupied c) ∧
    (c ∈ g.connections → (g.disconnect c).2.tryConnect c =
      (.ok true, { g with connections := g.connections.erase c ++ [c] })) := by
  refine ⟨?_, disconnect_of_added, tryConnect_eq_unknownNode_iff, tryConnect_eq_present_iff,
    tryConnect_eq_outletOccupied_iff, connect_after_disconnect hg.wired⟩
  intro hnot
  apply tryConnect_of_not_added
  intro hadded
  rcases hnot with ⟨e, he⟩ | hpresent
  · rw [hadded] at he
    cases he
  · rw [hadded] at hpresent
    cases hpresent

/-- At the crossroads the way to the left is taken. It is refused to another target, and is open
again when the one that takes it goes; the way on by the default outlet is free. -/
theorem connect_and_back_crossroads : ∃ g : Graph, g.Authored ∧
    let left : Connection := ⟨.ofNat 4, "left", .ofNat 5, defaultOutlet⟩
    let astray : Connection := ⟨.ofNat 4, "left", .ofNat 3, defaultOutlet⟩
    let onward : Connection := ⟨.ofNat 4, defaultOutlet, .ofNat 3, defaultOutlet⟩
    left ∈ g.connections ∧
    (∃ node outlet, (g.tryConnect astray).1 = .error (.outletOccupied node outlet)) ∧
    (g.tryConnect astray).2 = g ∧
    (g.disconnect left).2.tryConnect left =
      (.ok true, { g with connections := g.connections.erase left ++ [left] }) ∧
    (g.tryConnect onward).1 = .ok true ∧
    (g.tryConnect onward).2.disconnect onward = (true, g) := by
  have hbuild : (crossroads.build (.startingAt 1)).1 = .ok _ := rfl
  have hauthored : Authored _ := ⟨_, _, [], .built hbuild, rfl⟩
  refine ⟨_, hauthored, ?_⟩
  intro left astray onward
  have hleft := connect_and_back hauthored left
  have hastray := connect_and_back hauthored astray
  have honward := connect_and_back hauthored onward
  have htaken := hastray.2.2.2.2.1.mpr ⟨by decide, by decide, by decide, by decide, left, by decide⟩
  obtain ⟨node, outlet, herror⟩ := htaken
  exact ⟨by decide, ⟨node, outlet, herror⟩, hastray.1 (.inl ⟨_, herror⟩),
    hleft.2.2.2.2.2 (by decide), rfl, honward.2.1 rfl⟩

end Fabula.Graph
