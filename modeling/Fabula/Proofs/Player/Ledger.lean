import Fabula.Proofs.Player.Cues
import Fabula.Proofs.Player.Tour

/-!
# The ledger of a player

Whoever directs a player, what a turn does to its ledger shows in its status: the ledger is closed
by the turn that finishes the run, and no other turn touches it. So each call of the host either is
refused, or settles the run that it began or went on with in one of three ways.
-/

namespace Fabula.Player

open Chain (Walked)
open Script (Sentence Grown)

/-- The runs of a player, and who was told of their ends. -/
structure Ledger where
  runs : Nat
  awaited : Option Nat
  completed : List Nat
  observers : List Nat

namespace Ledger

variable (l : Ledger)

/-- A run begins, with or without a callback. -/
def opened (callback : Bool) : Ledger :=
  { l with runs := l.runs + 1, awaited := if callback then some (l.runs + 1) else none }

/-- The run finishes. -/
def closed : Ledger :=
  { l with
    awaited := none
    completed := l.completed ++ l.awaited.toList
    observers := l.observers.map (· + 1) }

/-- The run is given up. -/
def dropped : Ledger := { l with awaited := none }

end Ledger

/-- What a run does to the ledger, by the status in which it leaves the player. -/
inductive Settles (l : Ledger) : Status → Ledger → Prop
  | goes {status : Status} : status = .running ∨ status = .suspended → Settles l status l
  | finishes : Settles l .finished l.closed
  | fails : Settles l .idle l.dropped

variable {D : Type}

def ledger (p : Player D) : Ledger := ⟨p.runs, p.awaited, p.completed, p.observers⟩

/-- From a state that satisfies `Safe`, a director hands out nothing but scripts that were
compiled. -/
structure Stocked [Director D] (Safe : D → Prop) : Prop where
  answers : ∀ {d d' : D} {r : Except ChainError Transfer}, Safe d → Answers d r d' →
    Safe d' ∧ ∀ script, r = .ok (.execute script) → script.Compiled

/-- All that the player plays, now and later, was compiled. -/
structure Ready (Safe : D → Prop) (p : Player D) : Prop where
  director : Safe p.director
  script : ∀ script, p.script = some script → script.Compiled

/-- What a turn leads to, with the ledger `l` before it. -/
inductive Books (Safe : D → Prop) (l : Ledger) : Attempt D → Prop
  | keeps {q : Player D} : Ready Safe q → q.ledger = l →
      q.status = .running ∨ q.status = .suspended → Books Safe l (.ok q)
  | closes {q : Player D} : Ready Safe q → q.ledger = l.closed → q.status = .finished →
      Books Safe l (.ok q)
  | fails (e : RunError) {q : Player D} : Ready Safe q → q.ledger = l →
      Books Safe l (.error (e, q))

/-- A call of the host: whether it begins a run, with a callback or without one, and what it leads
to. -/
structure Deed (D : Type) where
  begins : Option Bool
  make : Nat → Player D → Outcome D

def Cue.deed [Director D] : Cue → Deed D
  | .play script callback => ⟨some callback, fun turns p => p.play turns script callback⟩
  | .proceed => ⟨none, Player.proceed⟩
  | .choose option => ⟨none, fun turns p => p.choose turns option⟩
  | .goto index => ⟨none, fun turns p => p.resumeAt turns index⟩
  | .jump outlet => ⟨none, fun turns p => p.jump turns outlet⟩
  | .next => ⟨none, fun turns p => p.jump turns defaultOutlet⟩

def starting : Deed Chain := ⟨some false, start⟩

/-- The ledger of the run that a call is about. -/
def Ledger.under (l : Ledger) : Option Bool → Ledger
  | some callback => l.opened callback
  | none => l

inductive Deals (begins : Option Bool) (p q : Player D) : Prop
  | refused : begins = none → q.status = p.status → q.ledger = p.ledger → Deals begins p q
  | settled : begins.isSome = true ∨ p.status = .suspended →
      Settles (p.ledger.under begins) q.status q.ledger → Deals begins p q

section
variable {Safe : D → Prop} {l : Ledger} {p q : Player D} {script : Script}

theorem Ready.finish (h : Ready Safe p) : Books Safe p.ledger (.ok p.finish) :=
  .closes ⟨h.director, h.script⟩ rfl rfl

theorem Books.settle {a : Attempt D} (h : Books Safe l a) : Books Safe l (a.map Player.settle) := by
  cases h with
  | keeps hq hl hgoing =>
    simp only [Except.map, Player.settle]
    split
    · exact .keeps ⟨hq.director, hq.script⟩ hl (.inr rfl)
    · exact .keeps hq hl hgoing
  | closes hq hl hfinished =>
    simp only [Except.map, Player.settle]
    split
    · rename_i hpauses
      simp [hfinished] at hpauses
    · exact .closes hq hl hfinished
  | fails e hq hl => exact .fails e hq hl

variable [Director D]

theorem books_leave (hstocked : Stocked Safe) (h : Ready Safe p)
    (hgoing : p.status = .running ∨ p.status = .suspended) (outlet : String) :
    Books Safe p.ledger (p.leave outlet) := by
  unfold Player.leave
  rcases hleave : Director.leave p.director outlet with ⟨e | t, d⟩ <;>
    obtain ⟨hd, hcompiled⟩ := hstocked.answers h.director (.left outlet hleave)
  · exact .fails (.chain e) ⟨hd, h.script⟩ rfl
  · cases t with
    | stay => exact .keeps ⟨hd, h.script⟩ rfl hgoing
    | execute script =>
      refine .keeps ⟨hd, ?_⟩ rfl hgoing
      rintro _ ⟨⟩
      exact hcompiled script rfl
    | finish => exact .closes ⟨hd, h.script⟩ rfl rfl

theorem books_atEnd (hstocked : Stocked Safe) (h : Ready Safe p) (hrunning : p.status = .running) :
    Books Safe p.ledger p.atEnd := by
  unfold Player.atEnd
  rcases hfinished : Director.finished p.director with ⟨e | t, d⟩ <;>
    obtain ⟨hd, hcompiled⟩ := hstocked.answers h.director (.finished hfinished)
  · exact .fails (.chain e) ⟨hd, h.script⟩ rfl
  · cases t with
    | execute script =>
      refine .keeps ⟨hd, ?_⟩ rfl (.inl hrunning)
      rintro _ ⟨⟩
      exact hcompiled script rfl
    | stay => exact .closes ⟨hd, h.script⟩ rfl rfl
    | finish => exact .closes ⟨hd, h.script⟩ rfl rfl

theorem books_execute (hstocked : Stocked Safe) (h : Ready Safe p) (hrunning : p.status = .running)
    (hg : Grown script.sentences) {s : Sentence} (hs : s ∈ script.sentences) :
    Books Safe p.ledger (p.execute s) := by
  cases s with
  | say line =>
    rw [execute]
    have hshows := shows_executeSay p line
    generalize p.executeSay line = a at hshows
    cases hshows with
    | ok events => exact .keeps ⟨h.director, h.script⟩ rfl (.inl hrunning)
    | error e events => exact .fails e ⟨h.director, h.script⟩ rfl
  | conditional c =>
    rw [execute, executeConditional]
    split
    · exact .keeps ⟨h.director, h.script⟩ rfl (.inl hrunning)
    · exact .fails _ ⟨h.director, h.script⟩ rfl
  | jump label =>
    cases label with
    | some label => exact books_leave hstocked h (.inl hrunning) label
    | none => exact books_leave hstocked h (.inl hrunning) defaultOutlet
  | close | menu | option | branch | otherwise =>
    exact .keeps ⟨h.director, h.script⟩ rfl (.inl hrunning)
  | command c => exact absurd hs (hg.no_command c)

theorem books_turn (hstocked : Stocked Safe) (h : Ready Safe p) (hrunning : p.status = .running) :
    Books Safe p.ledger p.turn := by
  cases hscript : p.script with
  | none =>
    have hturn : p.turn = .ok p.finish := by simp only [turn, hscript]
    rw [hturn]
    exact h.finish
  | some script =>
    cases hs : script.sentence? p.index with
    | none =>
      have hturn : p.turn = p.atEnd := by simp only [turn, hscript, hs]
      rw [hturn]
      exact books_atEnd hstocked h hrunning
    | some s =>
      cases hr : p.redirect? script s with
      | some target =>
        rw [turn_of_redirect hscript hs hr]
        exact .keeps ⟨h.director, h.script⟩ rfl (.inl hrunning)
      | none =>
        rw [turn_of_execute hscript hs hr]
        have hbegun : Ready Safe { p with moved := false } := ⟨h.director, h.script⟩
        exact (books_execute hstocked hbegun hrunning (h.script script hscript).grown
          (List.mem_of_getElem? hs)).settle

theorem settles_run (hstocked : Stocked Safe) (h : Ready Safe p) (hrunning : p.status = .running)
    (turns : Nat) : Ready Safe (run turns p).player ∧
      Settles p.ledger (run turns p).player.status (run turns p).player.ledger := by
  -- While the player runs its ledger stays as it was, so the ledger of the claim is that of the
  -- rest of the run.
  induction turns generalizing p with
  | zero =>
    rw [run, if_pos hrunning]
    exact ⟨h, .goes (.inl hrunning)⟩
  | succ turns ih =>
    have hbooks := books_turn hstocked h hrunning
    simp only [run, if_pos hrunning]
    generalize p.turn = a at hbooks
    cases hbooks with
    | @keeps q hq hl hgoing =>
      rw [← hl]
      rcases hgoing with hgoing | hgoing
      · exact ih hq hgoing
      · dsimp only
        rw [run_of_not_running (by simp [hgoing])]
        exact ⟨hq, .goes (.inr hgoing)⟩
    | @closes q hq hl hfinished =>
      dsimp only
      rw [run_of_not_running (by simp [hfinished])]
      refine ⟨hq, ?_⟩
      rw [Outcome.player, hl, hfinished]
      exact .finishes
    | fails e hq hl =>
      refine ⟨⟨hq.director, hq.script⟩, ?_⟩
      rw [← hl]
      exact .fails

theorem deals_play (hstocked : Stocked Safe) (h : Ready Safe p) (hscript : script.Compiled)
    (callback : Bool) (turns : Nat) : Ready Safe (p.play turns script callback).player ∧
      Deals (some callback) p (p.play turns script callback).player := by
  have hbegun : Ready Safe (p.started script callback) := by
    refine ⟨h.director, ?_⟩
    rintro _ ⟨⟩
    exact hscript
  obtain ⟨hready, hsettles⟩ := settles_run hstocked hbegun rfl turns
  exact ⟨hready, .settled (.inl rfl) hsettles⟩

theorem deals_nudge (hstocked : Stocked Safe) (h : Ready Safe p) (a : Nudge) (turns : Nat) :
    Ready Safe (p.nudge turns a).player ∧ Deals none p (p.nudge turns a).player := by
  rw [nudge_eq]
  cases hn : p.nudged a with
  | error e => exact ⟨h, .refused rfl rfl rfl⟩
  | ok q =>
    obtain ⟨hwaits, index, events, rfl⟩ := nudged_eq_ok hn
    obtain ⟨hready, hsettles⟩ := settles_run (p := { p with index, status := .running, events })
      hstocked ⟨h.director, h.script⟩ rfl turns
    exact ⟨hready, .settled (.inr hwaits) hsettles⟩

theorem status_of_leave {e : RunError} {outlet : String} (h : p.leave outlet = .error (e, q)) :
    q.status = p.status := by
  unfold Player.leave at h
  split at h
  · simp at h
  · obtain ⟨_, rfl⟩ := Prod.mk.inj (Except.error.inj h)
    rfl

theorem deals_jump (hstocked : Stocked Safe) (h : Ready Safe p) (outlet : String) (turns : Nat) :
    Ready Safe (p.jump turns outlet).player ∧ Deals none p (p.jump turns outlet).player := by
  unfold jump
  by_cases hwaits : p.status = .suspended
  · have hbooks := books_leave hstocked h (.inr hwaits) outlet
    rw [if_pos hwaits]
    rcases hleave : p.leave outlet with ⟨e, q⟩ | q <;> rw [hleave] at hbooks
    · cases hbooks with
      | fails _ hq hl => exact ⟨hq, .refused rfl (status_of_leave hleave) hl⟩
    · cases hbooks with
      | keeps hq hl hgoing =>
        have hopen : q.status ≠ .finished := by
          rcases hgoing with hgoing | hgoing <;> simp [hgoing]
        obtain ⟨hready, hsettles⟩ := settles_run (p := { q with status := .running }) hstocked
          ⟨hq.director, hq.script⟩ rfl turns
        have hbegun : ledger { q with status := .running } = p.ledger := hl
        rw [hbegun] at hsettles
        simp only [if_neg hopen]
        exact ⟨hready, .settled (.inr hwaits) hsettles⟩
      | closes hq hl hfinished =>
        simp only [if_pos hfinished]
        refine ⟨hq, .settled (.inr hwaits) ?_⟩
        rw [Outcome.player, hl, hfinished]
        exact .finishes
  · rw [if_neg hwaits]
    exact ⟨h, .refused rfl rfl rfl⟩

theorem deals_cue (hstocked : Stocked Safe) (h : Ready Safe p) {a : Cue} (ha : a.Compiled)
    (turns : Nat) : Ready Safe ((a.deed : Deed D).make turns p).player ∧
      Deals (a.deed : Deed D).begins p (a.deed.make turns p).player := by
  cases a with
  | play script callback => exact deals_play hstocked h ha callback turns
  | proceed => exact deals_nudge hstocked h (.request .proceed) turns
  | choose option => exact deals_nudge hstocked h (.request (.choose option)) turns
  | goto index => exact deals_nudge hstocked h (.goto index) turns
  | jump outlet => exact deals_jump hstocked h outlet turns
  | next => exact deals_jump hstocked h defaultOutlet turns

end

theorem stocked_single : Stocked fun _ : SingleScript => True := by
  refine ⟨fun _ h => ⟨trivial, ?_⟩⟩
  rintro script rfl
  rcases h with ⟨_, h⟩ | h <;> cases h

section
variable {c : Chain} (hcompiled : ∀ script ∈ c.scripts, script.Compiled)
include hcompiled

theorem stocked_chain : Stocked (Walked c) := by
  have hled : ∀ {d d' : Chain} {r : Except ChainError Transfer} {outlet : String}, Walked c d →
      ((d.leaveBy outlet).1.map Chain.Step.transfer, (d.leaveBy outlet).2) = (r, d') →
      Walked c d' ∧ ∀ script, r = .ok (.execute script) → script.Compiled := by
    intro d d' r outlet hd h
    have hwalked := hd.leaveBy outlet
    rcases hleave : d.leaveBy outlet with ⟨e | (script | _ | _), d''⟩ <;>
      rw [hleave] at h hwalked <;> obtain ⟨rfl, rfl⟩ := Prod.mk.inj h
    · exact ⟨hwalked, nofun⟩
    · refine ⟨hwalked, ?_⟩
      rintro _ ⟨⟩
      exact hcompiled script (hwalked.story_mem (Chain.leaveBy_story hleave).1)
    · exact ⟨hwalked, nofun⟩
    · exact ⟨hwalked, nofun⟩
  refine ⟨fun hd h => ?_⟩
  rcases h with ⟨outlet, h⟩ | h
  · exact hled hd h
  · exact hled hd h

theorem deals_start {p : Player Chain} (h : Ready (Walked c) p) (turns : Nat) :
    Ready (Walked c) (p.start turns).player ∧ Deals (some false) p (p.start turns).player := by
  have hwalked := h.director.reset
  have hbegin : (p.begin false).director = p.director := rfl
  unfold start
  rcases hreset : p.director.reset with ⟨e | (script | _ | _), d⟩ <;>
    rw [hreset] at hwalked <;> simp only [hbegin, hreset]
  · exact ⟨⟨hwalked, h.script⟩, .settled (.inl rfl) .fails⟩
  · have hat := hwalked.story_mem (Chain.enter_story hreset).1
    have hbegun : Ready (Walked c) (started { p with director := d } script false) := by
      refine ⟨hwalked, ?_⟩
      rintro _ ⟨⟩
      exact hcompiled script hat
    obtain ⟨hready, hsettles⟩ := settles_run (stocked_chain hcompiled) hbegun rfl turns
    exact ⟨hready, .settled (.inl rfl) hsettles⟩
  · exact ⟨⟨hwalked, h.script⟩, .settled (.inl rfl) .finishes⟩
  · exact ⟨⟨hwalked, h.script⟩, .settled (.inl rfl) .finishes⟩

end

end Fabula.Player
