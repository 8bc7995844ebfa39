import Mathlib.Logic.Relation
import Fabula.Chain.Walk

/-!
# Hops

A walk hops from calls and finishes to where they lead until it stops: on a story, at the finish
of the root graph, or with an error. What each hop keeps is kept by the walk.
-/

namespace Fabula.Chain

open Relation (ReflTransGen)

/-- Where a walk that stands on a call or a finish goes on, and with which returns. -/
inductive Leads (d : Chain) : Target → Chain → Prop
  | call {called : Uuid} {resume : Option Target} {pushed : Chain} :
      d.arrival d.current = .ok (.call called resume) → d.pushReturn resume = .ok pushed →
      Leads d ⟨called, 0⟩ pushed
  | back {t : Target} {rest : List Target} : d.arrival d.current = .ok .finish →
      d.stack = t :: rest → Leads d t { d with stack := rest }

def Hops (d e : Chain) : Prop := ∃ t d', Leads d t d' ∧ e = { d' with current := t }

/-- What a walk answers that goes no further than `d`. -/
inductive Stops (d : Chain) : Except ChainError Step × Chain → Prop
  | lost {e : ChainError} : d.arrival d.current = .error e → Stops d (.error e, d)
  | story {script : Script} : d.arrival d.current = .ok (.story script) →
      Stops d (.ok (.story script), d)
  | tooDeep {called : Uuid} {resume : Option Target} {e : ChainError} :
      d.arrival d.current = .ok (.call called resume) → d.pushReturn resume = .error e →
      Stops d (.error e, d)
  | tooLong {t : Target} {d' : Chain} : Leads d t d' →
      Stops d (.error (.noProgress maxTransferHops), d')
  | ended : d.arrival d.current = .ok .finish → d.stack = [] →
      Stops d (.ok .ended, { d with ended := true })

/-- Where an outlet leads from the cursor. A finish leads to itself. -/
inductive Onward (d : Chain) (outlet : String) : Target → Prop
  | branch {n : ChainNode} {t : Target} : d.nodeAt d.current = .ok (some n) →
      n.branch? outlet = some t → Onward d outlet t
  | call {n : ChainNode} {called : Uuid} : d.nodeAt d.current = .ok (some n) →
      n.kind = .subgraph called → Onward d outlet ⟨called, 0⟩
  | again {met : Option ChainNode} : d.nodeAt d.current = .ok met → Onward d outlet d.current

/-- How a cursor is left by an outlet. -/
inductive Leaves (d : Chain) (outlet : String) : Except ChainError Step × Chain → Prop
  | ended : d.ended = true → Leaves d outlet (.ok .ended, d)
  | lost {e : ChainError} : d.ended = false → d.nodeAt d.current = .error e →
      Leaves d outlet (.error e, d)
  | stays {n : ChainNode} : d.ended = false → d.nodeAt d.current = .ok (some n) →
      n.branch? outlet = none → Leaves d outlet (.ok .stay, d)
  | enters {t : Target} : d.ended = false → Onward d outlet t →
      Leaves d outlet (d.enter maxTransferHops t)

section
variable {d d' : Chain}

theorem nodeAt_congr (h : d'.graphs = d.graphs) (t : Target) : d'.nodeAt t = d.nodeAt t := by
  rw [nodeAt, nodeAt, nodes?, nodes?, h]

theorem arrival_congr (h : d'.graphs = d.graphs) (t : Target) : d'.arrival t = d.arrival t := by
  rw [arrival, arrival, nodeAt_congr h]

theorem pushReturn_eq_ok {resume : Option Target} (h : d.pushReturn resume = .ok d') :
    (resume = none ∧ d' = d) ∨ ∃ u, resume = some u ∧ d.stack.length < maxCallDepth ∧
      d' = { d with stack := u :: d.stack } := by
  cases resume with
  | none => exact .inl ⟨rfl, (Except.ok.inj h).symm⟩
  | some u =>
    simp only [pushReturn] at h
    split at h
    · simp at h
    · rename_i hdepth
      exact .inr ⟨u, rfl, Nat.lt_of_not_le hdepth, (Except.ok.inj h).symm⟩

theorem pushReturn_eq_error {resume : Option Target} {e : ChainError}
    (h : d.pushReturn resume = .error e) : e = .callDepthExceeded maxCallDepth := by
  cases resume with
  | none => simp [pushReturn] at h
  | some u =>
    simp only [pushReturn] at h
    split at h
    · exact (Except.error.inj h).symm
    · simp at h

theorem Leads.keeps {t : Target} (h : Leads d t d') : d'.root = d.root ∧
    d'.graphs = d.graphs ∧ d'.current = d.current ∧ d'.ended = d.ended := by
  cases h with
  | call _ hpush =>
    rcases pushReturn_eq_ok hpush with ⟨_, rfl⟩ | ⟨u, _, _, rfl⟩
    · exact ⟨rfl, rfl, rfl, rfl⟩
    · exact ⟨rfl, rfl, rfl, rfl⟩
  | back _ _ => exact ⟨rfl, rfl, rfl, rfl⟩

theorem Leads.arrival_ne {t : Target} (h : Leads d t d') (script : Script) :
    d'.arrival d'.current ≠ .ok (.story script) := by
  obtain ⟨_, hgraphs, hcurrent, _⟩ := h.keeps
  rw [hcurrent, arrival_congr hgraphs]
  cases h with
  | call hat _ => simp [hat]
  | back hat _ => simp [hat]

theorem Stops.off {e : ChainError} (h : Stops d (.error e, d')) :
    (d'.root = d.root ∧ d'.graphs = d.graphs ∧ d'.ended = d.ended) ∧
      ∀ script, d'.arrival d'.current ≠ .ok (.story script) := by
  cases h with
  | lost hat => exact ⟨⟨rfl, rfl, rfl⟩, by simp [hat]⟩
  | tooDeep hat _ => exact ⟨⟨rfl, rfl, rfl⟩, by simp [hat]⟩
  | tooLong hleads =>
    obtain ⟨hroot, hgraphs, _, hended⟩ := hleads.keeps
    exact ⟨⟨hroot, hgraphs, hended⟩, hleads.arrival_ne⟩

theorem hops_keep (h : ReflTransGen Hops d d') :
    d'.root = d.root ∧ d'.graphs = d.graphs ∧ d'.ended = d.ended := by
  induction h with
  | refl => exact ⟨rfl, rfl, rfl⟩
  | tail _ hhop ih =>
    obtain ⟨t, e, hleads, rfl⟩ := hhop
    obtain ⟨hroot, hgraphs, _, hended⟩ := hleads.keeps
    exact ⟨hroot.trans ih.1, hgraphs.trans ih.2.1, hended.trans ih.2.2⟩

theorem enter_succ (hops : Nat) (t : Target) (d : Chain) :
    Stops { d with current := t } (d.enter (hops + 1) t) ∨
      ∃ u d', Leads { d with current := t } u d' ∧ d.enter (hops + 1) t = d'.enter hops u := by
  rw [Chain.enter]
  rcases hat : arrival { d with current := t } t with e | (script | ⟨called, resume⟩ | _) <;>
    dsimp only
  · exact .inl (.lost hat)
  · exact .inl (.story hat)
  · cases hpush : Chain.pushReturn { d with current := t } resume with
    | error e => exact .inl (.tooDeep hat hpush)
    | ok pushed => exact .inr ⟨_, pushed, .call hat hpush, rfl⟩
  · split
    · rename_i hstack
      exact .inl (.ended hat hstack)
    · rename_i u rest hstack
      exact .inr ⟨u, _, .back hat hstack, rfl⟩

theorem exists_stops_enter (hops : Nat) (t : Target) (d : Chain) :
    ∃ e, ReflTransGen Hops { d with current := t } e ∧ Stops e (d.enter (hops + 1) t) := by
  induction hops generalizing d t with
  | zero =>
    rcases enter_succ 0 t d with hstops | ⟨u, d', hleads, henter⟩
    · exact ⟨_, .refl, hstops⟩
    · -- Out of hops, the walk gives up before it stands where the last one leads.
      refine ⟨_, .refl, ?_⟩
      rw [henter]
      exact .tooLong hleads
  | succ hops ih =>
    rcases enter_succ (hops + 1) t d with hstops | ⟨u, d', hleads, henter⟩
    · exact ⟨_, .refl, hstops⟩
    · obtain ⟨e, hwalk, hstops⟩ := ih u d'
      rw [henter]
      exact ⟨e, .head ⟨u, d', hleads, rfl⟩ hwalk, hstops⟩

theorem exists_stops (t : Target) (d : Chain) : ∃ e, ReflTransGen Hops { d with current := t } e ∧
    Stops e (d.enter maxTransferHops t) :=
  exists_stops_enter (maxTransferHops - 1) t d

theorem leaves_leaveBy (d : Chain) (outlet : String) : Leaves d outlet (d.leaveBy outlet) := by
  unfold Chain.leaveBy
  cases hended : d.ended with
  | true => exact .ended hended
  | false =>
    rw [if_neg Bool.false_ne_true]
    rcases hat : d.nodeAt d.current with e | (_ | n) <;> dsimp only
    · exact .lost hended hat
    · exact .enters hended (.again hat)
    · split
      · rename_i t ht
        exact .enters hended (.branch hat ht)
      · rename_i hnone
        split
        · exact .stays hended hat hnone
        · rename_i called hkind
          exact .enters hended (.call hat hkind)
        · exact .enters hended (.again hat)

theorem leaveBy_of_branch {n : ChainNode} {t : Target} {outlet : String} (hopen : d.ended = false)
    (hat : d.nodeAt d.current = .ok (some n)) (ht : n.branch? outlet = some t) :
    d.leaveBy outlet = d.enter maxTransferHops t := by
  simp [Chain.leaveBy, hopen, hat, ht]

/-- A walk that answers a story stands on it. -/
theorem enter_story {hops : Nat} {t : Target} {script : Script}
    (h : d.enter hops t = (.ok (.story script), d')) :
    d'.arrival d'.current = .ok (.story script) ∧ d'.ended = d.ended := by
  cases hops with
  | zero => simp [Chain.enter] at h
  | succ hops =>
    obtain ⟨e, hwalk, hstops⟩ := exists_stops_enter hops t d
    rw [h] at hstops
    cases hstops with
    | story hat => exact ⟨hat, (hops_keep hwalk).2.2⟩

theorem leaveBy_story {outlet : String} {script : Script}
    (h : d.leaveBy outlet = (.ok (.story script), d')) :
    d'.arrival d'.current = .ok (.story script) ∧ d'.ended = false := by
  have hleaves := leaves_leaveBy d outlet
  generalize hr : d.leaveBy outlet = r at hleaves
  rw [h] at hr
  cases hleaves with
  | ended | lost | stays => simp at hr
  | enters hopen _ =>
    obtain ⟨hat, hended⟩ := enter_story hr.symm
    exact ⟨hat, hended.trans hopen⟩

/-- A cursor that is told to stay has not moved. -/
theorem leaveBy_stay {outlet : String} (h : d.leaveBy outlet = (.ok .stay, d')) : d' = d := by
  have hleaves := leaves_leaveBy d outlet
  generalize hr : d.leaveBy outlet = r at hleaves
  rw [h] at hr
  cases hleaves with
  | ended | lost => simp at hr
  | stays => exact (Prod.mk.inj hr).2
  | @enters t _ _ =>
    obtain ⟨e, _, hstops⟩ := exists_stops t d
    rw [← hr] at hstops
    cases hstops

end

end Fabula.Chain
