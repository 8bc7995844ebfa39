import Mathlib.Logic.Relation
import Fabula.Proofs.Player.Ledger

/-!
# Completion

An onlooker writes down what a host does and the status in which each call leaves the player, and
so knows which runs were begun with a callback, which have finished, and who was registered when.
The callback of a run is called once the run has finished, and never else; an observer is called as
often as runs have finished since it was registered.
-/

namespace Fabula.Player

open Chain (Walked)
open Relation (ReflTransGen)

/-- What an onlooker has written down: how many runs were begun, those begun with a callback, and
those that have finished. -/
structure Chronicle where
  runs : Nat
  asked : List Nat
  ended : List Nat
  /-- For each observer how many runs had finished when it was registered. -/
  joined : List Nat
deriving DecidableEq

namespace Chronicle

def blank : Chronicle := ⟨0, [], [], []⟩

variable (c : Chronicle)

/-- A run begins, unless the call goes on with one. -/
def under : Option Bool → Chronicle
  | some callback =>
    { c with runs := c.runs + 1, asked := if callback then c.asked ++ [c.runs + 1] else c.asked }
  | none => c

/-- The run has finished. -/
def close : Chronicle := { c with ended := c.ended ++ [c.runs] }

/-- A call was made. It has finished a run if the player is finished after it, and was not before
or has begun another run. -/
def after (begins : Option Bool) (before now : Status) : Chronicle :=
  if now = .finished ∧ (begins.isSome = true ∨ before ≠ .finished) then (c.under begins).close
  else c.under begins

def join : Chronicle := { c with joined := c.joined ++ [c.ended.length] }

end Chronicle

/-- A player under the eyes of an onlooker. -/
structure Scene (D : Type) where
  player : Player D
  seen : Chronicle

namespace Scene

variable {D : Type}

def opening (p : Player D) : Scene D := ⟨p, .blank⟩

/-- The scene after a call that was granted a number of turns. -/
def after (s : Scene D) (a : Deed D) (turns : Nat) : Scene D :=
  let q := (a.make turns s.player).player
  ⟨q, s.seen.after a.begins s.player.status q.status⟩

/-- What a host does when no call is under way. A call that has used up its turns leaves a player
that is running, and nothing is done after it. -/
inductive Step (allowed : Deed D → Prop) (s : Scene D) : Scene D → Prop
  | call {a : Deed D} (turns : Nat) : s.player.status ≠ .running → allowed a →
      Step allowed s (s.after a turns)
  | observe : s.player.status ≠ .running → Step allowed s ⟨s.player.observe, s.seen.join⟩
  | set (store : Store) : s.player.status ≠ .running →
      Step allowed s ⟨{ s.player with store }, s.seen⟩

/-- The run is behind: a later one has begun, or an error has ended it. -/
def Past (s : Scene D) (run : Nat) : Prop :=
  run < s.seen.runs ∨ run = s.seen.runs ∧ s.player.status = .idle

/-- Callbacks and observers were called as they should. -/
structure Told (s : Scene D) : Prop where
  once : s.player.completed.Nodup
  exactly : ∀ run, run ∈ s.player.completed ↔ run ∈ s.seen.asked ∧ run ∈ s.seen.ended
  observers : s.player.observers = s.seen.joined.map fun before => s.seen.ended.length - before

end Scene

/-- The calls of every host, with scripts that were compiled. -/
def Deed.Common {D : Type} [Director D] (a : Deed D) : Prop :=
  ∃ cue : Cue, cue.Compiled ∧ a = cue.deed

/-- A chain can be started besides. -/
def Deed.Chained (a : Deed Chain) : Prop := a = starting ∨ a.Common

/-- From the scene on, whatever is done, callbacks and observers are called as they should, and
never any more for a run that is behind. -/
structure Reliable {D : Type} (allowed : Deed D → Prop) (s : Scene D) : Prop where
  told : ∀ t, ReflTransGen (Scene.Step allowed) s t → t.Told
  past : ∀ t t', ReflTransGen (Scene.Step allowed) s t → ReflTransGen (Scene.Step allowed) t t' →
    ∀ run, t.Past run → (run ∈ t'.player.completed ↔ run ∈ t.player.completed)

structure Ledger.Matches (l : Ledger) (c : Chronicle) : Prop where
  runs : l.runs = c.runs
  completed : l.completed = c.ended.filter (· ∈ c.asked)
  asked_le : ∀ run ∈ c.asked, run ≤ c.runs
  ended_le : ∀ run ∈ c.ended, run ≤ c.runs
  distinct : c.ended.Nodup
  joined_le : ∀ before ∈ c.joined, before ≤ c.ended.length
  observers : l.observers = c.joined.map fun before => c.ended.length - before

/-- The ledger of a run that is under way. -/
structure Underway (l : Ledger) (c : Chronicle) : Prop extends l.Matches c where
  going : c.runs ∉ c.ended
  awaited : ∀ run, l.awaited = some run ↔ run = c.runs ∧ run ∈ c.asked

/-- The ledger of a player by its status. -/
structure Consistent (status : Status) (l : Ledger) (c : Chronicle) : Prop extends l.Matches c where
  finished : c.runs ∈ c.ended → status = .finished
  awaited : ∀ run, l.awaited = some run ↔
    (status = .running ∨ status = .suspended) ∧ run = c.runs ∧ run ∈ c.asked

section
variable {l l' : Ledger} {c : Chronicle} {status now : Status} {begins : Option Bool} {run : Nat}

theorem Ledger.Matches.opened (h : l.Matches c) (callback : Bool) :
    Underway (l.opened callback) (c.under (some callback)) := by
  have hnew : c.runs + 1 ∉ c.ended := fun hended => Nat.not_succ_le_self _ (h.ended_le _ hended)
  have hunasked : c.runs + 1 ∉ c.asked := fun hasked =>
    Nat.not_succ_le_self _ (h.asked_le _ hasked)
  -- No run that is over is the new one, so it does not count who was asked for now.
  have hcompleted : l.completed =
      c.ended.filter (· ∈ if callback then c.asked ++ [c.runs + 1] else c.asked) := by
    rw [h.completed]
    refine List.filter_congr fun run hrun => ?_
    have hold : run ≠ c.runs + 1 := fun heq => hnew (heq ▸ hrun)
    cases callback <;> simp [hold]
  have hasked_le : ∀ run ∈ if callback then c.asked ++ [c.runs + 1] else c.asked,
      run ≤ c.runs + 1 := by
    have hold : ∀ run ∈ c.asked, run ≤ c.runs + 1 := fun run hrun =>
      Nat.le_succ_of_le (h.asked_le run hrun)
    cases callback with
    | false => exact hold
    | true => exact List.forall_mem_append.mpr ⟨hold, List.forall_mem_singleton.mpr le_rfl⟩
  have hawaited : ∀ run, (l.opened callback).awaited = some run ↔ run = c.runs + 1 ∧
      run ∈ if callback then c.asked ++ [c.runs + 1] else c.asked := by
    intro run
    cases callback with
    | false => simpa [Ledger.opened] using fun heq => heq ▸ hunasked
    | true =>
      simp only [Ledger.opened, h.runs, if_true, Option.some.injEq, List.mem_append,
        List.mem_singleton]
      exact ⟨fun heq => ⟨heq.symm, .inr heq.symm⟩, fun hrun => hrun.1.symm⟩
  exact {
    runs := congrArg Nat.succ h.runs
    completed := hcompleted
    asked_le := hasked_le
    ended_le := fun run hrun => Nat.le_succ_of_le (h.ended_le run hrun)
    distinct := h.distinct
    joined_le := h.joined_le
    observers := h.observers
    going := hnew
    awaited := hawaited }

theorem Consistent.underway (h : Consistent status l c)
    (hbegins : begins.isSome = true ∨ status = .suspended) :
    Underway (l.under begins) (c.under begins) := by
  cases begins with
  | some callback => exact h.toMatches.opened callback
  | none =>
    obtain rfl : status = .suspended := by simpa using hbegins
    exact { h.toMatches with
      going := fun hended => by simpa using h.finished hended
      awaited := by simpa [Ledger.under, Chronicle.under] using h.awaited }

theorem Underway.closed (h : Underway l c) :
    Consistent .finished l.closed c.close := by
  -- The callback that is awaited, if any, is the one of the run that ends.
  have hcompleted : l.completed ++ l.awaited.toList =
      (c.ended ++ [c.runs]).filter (· ∈ c.asked) := by
    rw [List.filter_append, h.completed]
    refine congrArg _ ?_
    cases hawaited : l.awaited with
    | some run =>
      obtain ⟨rfl, hasked⟩ := (h.awaited run).mp hawaited
      simp [hasked]
    | none =>
      have hunasked : c.runs ∉ c.asked := fun hasked => by
        simpa [hawaited] using (h.awaited c.runs).mpr ⟨rfl, hasked⟩
      simp [hunasked]
  have hended_le : ∀ run ∈ c.ended ++ [c.runs], run ≤ c.runs :=
    List.forall_mem_append.mpr ⟨h.ended_le, List.forall_mem_singleton.mpr le_rfl⟩
  have hdistinct : (c.ended ++ [c.runs]).Nodup := by
    refine List.nodup_append.mpr ⟨h.distinct, by simp, ?_⟩
    intro run hrun other hother heq
    rw [List.mem_singleton] at hother
    exact h.going (hother ▸ heq ▸ hrun)
  have hlength : (c.ended ++ [c.runs]).length = c.ended.length + 1 := by simp
  have hobservers : l.observers.map (· + 1) =
      c.joined.map fun before => (c.ended ++ [c.runs]).length - before := by
    rw [h.observers, List.map_map, hlength]
    refine List.map_congr_left fun before hbefore => ?_
    exact (Nat.succ_sub (h.joined_le before hbefore)).symm
  exact {
    runs := h.runs
    completed := hcompleted
    asked_le := h.asked_le
    ended_le := hended_le
    distinct := hdistinct
    joined_le := fun before hbefore => hlength ▸ Nat.le_succ_of_le (h.joined_le before hbefore)
    observers := hobservers
    finished := fun _ => rfl
    awaited := by simp [Ledger.closed] }

theorem Underway.consistent (h : Underway l c) (hsettles : Settles l now l') :
    Consistent now l' (if now = .finished then c.close else c) := by
  cases hsettles with
  | goes hgoing =>
    have hopen : now ≠ .finished := by
      rcases hgoing with rfl | rfl <;> simp
    rw [if_neg hopen]
    exact { h.toMatches with
      finished := fun hended => absurd hended h.going
      awaited := by simpa [hgoing] using h.awaited }
  | finishes =>
    rw [if_pos rfl]
    exact h.closed
  | fails =>
    rw [if_neg (by simp)]
    exact { h.toMatches with
      finished := fun hended => absurd hended h.going
      awaited := by simp [Ledger.dropped] }

/-- The run under way is the only one whose callback a call may bring about. -/
theorem Underway.mem_completed (h : Underway l c) (hsettles : Settles l now l')
    (hrun : run < c.runs) : run ∈ l'.completed ↔ run ∈ l.completed := by
  cases hsettles with
  | goes _ => rfl
  | finishes =>
    have hunawaited : run ∉ l.awaited.toList := by
      rw [Option.mem_toList]
      exact fun hawaited => absurd ((h.awaited run).mp hawaited).1 (Nat.ne_of_lt hrun)
    simp [Ledger.closed, hunawaited]
  | fails => rfl

end

@[simp] theorem Ledger.under_completed (l : Ledger) (begins : Option Bool) :
    (l.under begins).completed = l.completed := by
  cases begins <;> rfl

section
variable {D : Type} {s t : Scene D} {allowed : Deed D → Prop} {Safe : D → Prop}

/-- The calls leave players that are ready, and their ledgers as `Deals` says. -/
structure Lawful (allowed : Deed D → Prop) (Safe : D → Prop) : Prop where
  deals : ∀ {a : Deed D} {p : Player D}, allowed a → Ready Safe p → ∀ turns,
    Ready Safe (a.make turns p).player ∧ Deals a.begins p (a.make turns p).player

structure Scene.Sound (Safe : D → Prop) (s : Scene D) : Prop where
  ready : Ready Safe s.player
  consistent : Consistent s.player.status s.player.ledger s.seen

theorem Chronicle.after_of_refused (c : Chronicle) (status : Status) :
    c.after none status status = c := by
  simp [Chronicle.after, Chronicle.under]

theorem Chronicle.after_of_settled {begins : Option Bool} {before : Status} (c : Chronicle)
    (now : Status) (hbegins : begins.isSome = true ∨ before = .suspended) :
    c.after begins before now =
      if now = .finished then (c.under begins).close else c.under begins := by
  have hopen : begins.isSome = true ∨ before ≠ .finished := by
    rcases hbegins with hbegins | rfl
    · exact .inl hbegins
    · exact .inr (by simp)
  simp only [Chronicle.after, hopen, and_true]

@[simp] theorem Chronicle.after_runs (c : Chronicle) (begins : Option Bool) (before now : Status) :
    (c.after begins before now).runs = (c.under begins).runs := by
  unfold Chronicle.after
  split <;> rfl

/-- A run that is behind is not the one that a call begins or goes on with. -/
theorem Scene.Past.lt_under {begins : Option Bool} {run : Nat} (h : s.Past run)
    (hbegins : begins.isSome = true ∨ s.player.status = .suspended) :
    run < (s.seen.under begins).runs := by
  cases begins with
  | some callback =>
    rcases h with h | ⟨rfl, _⟩
    · exact Nat.lt_succ_of_lt h
    · exact Nat.lt_succ_self _
  | none =>
    rcases h with h | ⟨_, hidle⟩
    · exact h
    · simp [hidle] at hbegins

theorem Scene.Sound.after (hlawful : Lawful allowed Safe) (h : s.Sound Safe) {a : Deed D}
    (ha : allowed a) (turns : Nat) : (s.after a turns).Sound Safe := by
  obtain ⟨hready, hdeals⟩ := hlawful.deals ha h.ready turns
  refine ⟨hready, ?_⟩
  unfold Scene.after
  dsimp only
  cases hdeals with
  | refused hbegins hstatus hledger =>
    rw [hbegins, hstatus, hledger, Chronicle.after_of_refused]
    exact h.consistent
  | settled hbegins hsettles =>
    rw [Chronicle.after_of_settled _ _ hbegins]
    exact (h.consistent.underway hbegins).consistent hsettles

theorem Consistent.observed {l : Ledger} {c : Chronicle} {status : Status}
    (h : Consistent status l c) :
    Consistent status { l with observers := l.observers ++ [0] } c.join := by
  have hjoined_le : ∀ before ∈ c.joined ++ [c.ended.length], before ≤ c.ended.length :=
    List.forall_mem_append.mpr ⟨h.joined_le, List.forall_mem_singleton.mpr le_rfl⟩
  have hobservers : l.observers ++ [0] =
      (c.joined ++ [c.ended.length]).map fun before => c.ended.length - before := by
    simp [h.observers]
  exact { h with joined_le := hjoined_le, observers := hobservers }

theorem Scene.Sound.step (hlawful : Lawful allowed Safe) (h : s.Sound Safe)
    (hstep : Scene.Step allowed s t) : t.Sound Safe := by
  cases hstep with
  | call turns _ ha => exact h.after hlawful ha turns
  | observe _ => exact ⟨⟨h.ready.director, h.ready.script⟩, h.consistent.observed⟩
  | set store _ => exact ⟨⟨h.ready.director, h.ready.script⟩, h.consistent⟩

theorem Scene.Sound.told (h : s.Sound Safe) : s.Told := by
  have hcompleted : s.player.completed = s.seen.ended.filter (· ∈ s.seen.asked) :=
    h.consistent.completed
  refine ⟨?_, fun run => ?_, h.consistent.observers⟩
  · rw [hcompleted]
    exact h.consistent.distinct.filter _
  · rw [hcompleted, List.mem_filter, decide_eq_true_eq, and_comm]

theorem Scene.Sound.past (hlawful : Lawful allowed Safe) (h : s.Sound Safe)
    (hstep : Scene.Step allowed s t) {run : Nat} (hrun : s.Past run) :
    t.Past run ∧ (run ∈ t.player.completed ↔ run ∈ s.player.completed) := by
  cases hstep with
  | observe _ => exact ⟨hrun, Iff.rfl⟩
  | set store _ => exact ⟨hrun, Iff.rfl⟩
  | @call a turns _ ha =>
    obtain ⟨_, hdeals⟩ := hlawful.deals ha h.ready turns
    cases hdeals with
    | refused hbegins hstatus hledger =>
      have hseen : (s.after a turns).seen = s.seen := by
        simp only [Scene.after, hbegins, hstatus, Chronicle.after_of_refused]
      have hcompleted : (s.after a turns).player.completed = s.player.completed :=
        congrArg Ledger.completed hledger
      refine ⟨?_, by rw [hcompleted]⟩
      rw [Scene.Past, hseen]
      exact hrun.imp_right fun hcurrent => ⟨hcurrent.1, hstatus.trans hcurrent.2⟩
    | settled hbegins hsettles =>
      have hbehind := hrun.lt_under hbegins
      have hmem := (h.consistent.underway hbegins).mem_completed hsettles hbehind
      rw [Ledger.under_completed] at hmem
      exact ⟨.inl (hbehind.trans_eq (Chronicle.after_runs ..).symm), hmem⟩

theorem sound_opening {d : D} (hsafe : Safe d) (store : Store) :
    (Scene.opening (.new d store)).Sound Safe := by
  have hmatches : (Player.new d store).ledger.Matches .blank := by
    constructor <;> simp [Player.new, ledger, Chronicle.blank]
  refine ⟨⟨hsafe, ?_⟩, { hmatches with finished := ?_, awaited := ?_ }⟩
  · rintro _ ⟨⟩
  · rintro ⟨⟩
  · simp [Scene.opening, Player.new, ledger]

theorem Scene.Sound.session (hlawful : Lawful allowed Safe) (h : s.Sound Safe)
    (hsession : ReflTransGen (Scene.Step allowed) s t) : t.Sound Safe := by
  induction hsession with
  | refl => exact h
  | tail _ hstep ih => exact ih.step hlawful hstep

theorem Scene.Sound.session_past (hlawful : Lawful allowed Safe) (h : s.Sound Safe)
    (hsession : ReflTransGen (Scene.Step allowed) s t) {run : Nat} (hrun : s.Past run) :
    t.Past run ∧ (run ∈ t.player.completed ↔ run ∈ s.player.completed) := by
  induction hsession with
  | refl => exact ⟨hrun, Iff.rfl⟩
  | tail hsession hstep ih =>
    obtain ⟨hpast, hcompleted⟩ := ih
    obtain ⟨hstill, hsame⟩ := (h.session hlawful hsession).past hlawful hstep hpast
    exact ⟨hstill, hsame.trans hcompleted⟩

theorem reliable_of_lawful (hlawful : Lawful allowed Safe) {d : D} (hsafe : Safe d)
    (store : Store) : Reliable allowed (.opening (.new d store)) := by
  have hopening := sound_opening hsafe store
  refine ⟨fun t ht => (hopening.session hlawful ht).told, fun t t' ht ht' run hrun => ?_⟩
  exact ((hopening.session hlawful ht).session_past hlawful ht' hrun).2

end

theorem lawful_common {D : Type} [Director D] {Safe : D → Prop} (hstocked : Stocked Safe) :
    Lawful Deed.Common Safe := by
  refine ⟨?_⟩
  rintro _ p ⟨cue, hcompiled, rfl⟩ hready turns
  exact deals_cue hstocked hready hcompiled turns

theorem lawful_chained {c : Chain} (hcompiled : ∀ script ∈ c.scripts, script.Compiled) :
    Lawful Deed.Chained (Walked c) := by
  refine ⟨?_⟩
  rintro _ p (rfl | hcommon) hready turns
  · exact deals_start hcompiled hready turns
  · exact (lawful_common (stocked_chain hcompiled)).deals hcommon hready turns

/-- Whatever a host does with a player of single scripts or of a chain, callbacks and observers are
called when runs finish, and nobody is called for a run that is behind. -/
theorem callbacks_wait_for_their_runs :
    (∀ (d : SingleScript) store, Reliable Deed.Common (.opening (.new d store))) ∧
    ∀ l root c, Chain.build .standard l root = .ok c →
      ∀ store, Reliable Deed.Chained (.opening (.new c store)) := by
  constructor
  · intro d store
    exact reliable_of_lawful (lawful_common stocked_single) trivial store
  · intro l root c hc store
    have hcompiled : ∀ script ∈ c.scripts, script.Compiled := fun script hscript =>
      Chain.compile_of_mem_scripts hc hscript
    exact reliable_of_lawful (lawful_chained hcompiled) (Chain.walked_of_build hc) store

/-- A line, and then the end. -/
def remark : Script := ⟨"r", [.say ⟨"", "", "one"⟩], [], [], []⟩

theorem compiled_remark : remark.Compiled := ⟨"r", ": one", by rfl⟩

/-- The remark is called back when it has been heard to its end. When it is given up for a tour it
never is, and an observer who came meanwhile is called for the tour alone. -/
theorem remark_heard_and_given_up :
    let alone := ((Scene.opening (.new (⟨none⟩ : SingleScript) .empty)).after
      (Cue.deed (.play remark true)) 9).after (Cue.deed .proceed) 9
    let heard := (Scene.opening (.new signpostChain .empty)).after (Cue.deed (.play remark true)) 9
    let observed : Scene Chain := ⟨heard.player.observe, heard.seen.join⟩
    let touring := observed.after starting 9
    let toured := (touring.after (Cue.deed .proceed) 9).after (Cue.deed .proceed) 9
    Chain.build .standard signpost (.ofNat 1) = .ok signpostChain ∧
    alone.Told ∧ alone.player.completed = [1] ∧ alone.seen = ⟨1, [1], [1], []⟩ ∧
    touring.Past 1 ∧ toured.Told ∧ toured.seen = ⟨2, [1], [2], [0]⟩ ∧
    toured.player.observers = [1] ∧ 1 ∉ toured.player.completed := by
  intro alone heard observed touring toured
  obtain ⟨hsingle, hchain⟩ := callbacks_wait_for_their_runs
  have hplay : ∀ {D : Type} [Director D], Deed.Common (Cue.deed (D := D) (.play remark true)) :=
    ⟨.play remark true, compiled_remark, rfl⟩
  have hproceed : ∀ {D : Type} [Director D], Deed.Common (Cue.deed (D := D) .proceed) :=
    ⟨.proceed, trivial, rfl⟩
  have halone : ReflTransGen (Scene.Step Deed.Common) (.opening (.new ⟨none⟩ .empty)) alone :=
    .tail (.single (.call 9 (by decide) hplay)) (.call 9 (by decide) hproceed)
  have htouring : ReflTransGen (Scene.Step Deed.Chained) (.opening (.new signpostChain .empty))
      touring :=
    .tail (.tail (.single (.call 9 (by decide) (.inr hplay))) (.observe (by decide)))
      (.call 9 (by decide) (.inl rfl))
  have hon : ReflTransGen (Scene.Step Deed.Chained) touring toured :=
    .tail (.single (.call 9 (by decide) (.inr hproceed))) (.call 9 (by decide) (.inr hproceed))
  have hreliable := hchain signpost (.ofNat 1) signpostChain build_signpost .empty
  have hpast : touring.Past 1 := .inl (by decide)
  have huncalled : 1 ∉ touring.player.completed := by decide
  have hnever := mt (hreliable.past touring toured htouring hon 1 hpast).mp huncalled
  exact ⟨build_signpost, (hsingle ⟨none⟩ .empty).told alone halone, by decide, by decide, hpast,
    hreliable.told toured (htouring.trans hon), by decide, by decide, hnever⟩

end Fabula.Player
