import Mathlib.Data.List.Perm.Subperm
import Fabula.Proofs.Chain.Stations
import Fabula.Proofs.Player.Course

/-!
# Arrivals

A player that a chain directs goes forward in its script until it waits or leaves the script. Where
it goes on after that, nothing but the station decides at which it arrives. So a run comes to an end
exactly if it arrives at no station twice.
-/

namespace Fabula.Player

open Chain (Step Station Walked)
open Script (Sentence Say Grown)

/-- The course of a player that begins a script. -/
def Course.opening {D : Type} (director : D) (store : Store) (script : Script) : Course D :=
  ⟨director, store, some script, 0, [], .running, true⟩

/-- The chain is where it was, or it was left by an outlet. -/
def Led (p q : Player Chain) : Prop :=
  q.director = p.director ∨ ∃ outlet, q.director = (p.director.leaveBy outlet).2

/-- What a turn of a running player leads to. -/
inductive Strides (p : Player Chain) : Attempt Chain → Prop
  | keeps {q : Player Chain} : Led p q → q.script = p.script → q.store = p.store →
      (q.status = .running → p.index < q.index ∧
        ∃ script, p.script = some script ∧ p.index < script.size) → Strides p (.ok q)
  | arrives {q : Player Chain} {outlet : String} {d : Chain} {script : Script} :
      p.director.leaveBy outlet = (.ok (.story script), d) →
      q.course = .opening d p.store script → Strides p (.ok q)
  | fails {q : Player Chain} (e : RunError) : Led p q → q.script = p.script → q.store = p.store →
      Strides p (.error (e, q))

section
variable {p : Player Chain} {script : Script}

theorem leave_eq (outlet : String) : p.leave outlet =
    match p.director.leaveBy outlet with
    | (.ok step, d) => .ok ({ p with director := d }.transfer step.transfer)
    | (.error e, d) => .error (.chain e, { p with director := d }) := by
  unfold leave
  have hleave : Director.leave p.director outlet =
      ((p.director.leaveBy outlet).1.map Step.transfer, (p.director.leaveBy outlet).2) := rfl
  rw [hleave]
  rcases p.director.leaveBy outlet with ⟨e | step, d⟩ <;> rfl

theorem atEnd_eq : p.atEnd =
    match p.director.leaveBy defaultOutlet with
    | (.ok (.story script), d) => .ok ({ p with director := d }.load script)
    | (.ok _, d) => .ok { p with director := d }.finish
    | (.error e, d) => .error (.chain e, { p with director := d }) := by
  unfold atEnd
  have hfinished : Director.finished p.director = ((p.director.leaveBy defaultOutlet).1.map
      Step.transfer, (p.director.leaveBy defaultOutlet).2) := rfl
  rw [hfinished]
  rcases p.director.leaveBy defaultOutlet with ⟨e | (script | _ | _), d⟩ <;> rfl

theorem led_of_leaveBy {outlet : String} {r : Except ChainError Step} {d : Chain}
    (h : p.director.leaveBy outlet = (r, d)) : Led p { p with director := d } :=
  .inr ⟨outlet, by rw [h]⟩

/-- A turn after which the player does not run need not go forward. -/
theorem strides_of_rest {q : Player Chain} (hled : Led p q) (hscript : q.script = p.script)
    (hstore : q.store = p.store) (hrest : q.status ≠ .running) : Strides p (.ok q) :=
  .keeps hled hscript hstore fun hrunning => absurd hrunning hrest

theorem strides_atEnd (hrunning : p.status = .running) : Strides p p.atEnd := by
  rw [atEnd_eq]
  rcases h : p.director.leaveBy defaultOutlet with ⟨e | (script | _ | _), d⟩
  · exact .fails _ (led_of_leaveBy h) rfl rfl
  · refine .arrives h ?_
    simp [course, load, Course.opening, hrunning]
  · exact strides_of_rest (led_of_leaveBy h) rfl rfl (by simp [finish])
  · exact strides_of_rest (led_of_leaveBy h) rfl rfl (by simp [finish])

theorem strides_leave (hscript : p.script = some script) (hrunning : p.status = .running)
    (hsize : p.index < script.size) (outlet : String) :
    Strides p ((leave { p with moved := false } outlet).map settle) := by
  rw [leave_eq]
  dsimp only
  rcases h : p.director.leaveBy outlet with ⟨e | (other | _ | _), d⟩
  · exact .fails _ (led_of_leaveBy h) rfl rfl
  · refine .arrives h ?_
    simp [course, load, Course.opening, hrunning, Step.transfer, transfer, settle]
  · refine .keeps (led_of_leaveBy h) rfl rfl fun _ => ?_
    exact ⟨Nat.lt_succ_self _, script, hscript, hsize⟩
  · exact strides_of_rest (led_of_leaveBy h) rfl rfl
      (by simp [Step.transfer, transfer, finish, settle])

theorem strides_execute (hg : Grown script.sentences) (hscript : p.script = some script)
    (hrunning : p.status = .running) {s : Sentence} (hs : script.sentence? p.index = some s)
    (hr : p.redirect? script s = none) : Strides p p.turn := by
  have hsize : p.index < script.size := (List.getElem?_eq_some_iff.mp hs).1
  have hmarker : ∀ own, s.owner? = some own → Strides p p.turn := by
    intro own hown
    rw [turn_marker hscript hs hown hr]
    exact .keeps (.inl rfl) rfl rfl fun _ => ⟨Nat.lt_succ_self _, script, hscript, hsize⟩
  cases s with
  | say line =>
    rw [turn_of_execute hscript hs hr]
    cases he : execute { p with moved := false } (.say line) with
    | error failure =>
      obtain ⟨e, q⟩ := failure
      obtain ⟨events, rfl⟩ := executeSay_eq_error he
      exact .fails e (.inl rfl) rfl rfl
    | ok q =>
      obtain ⟨events, rfl⟩ := executeSay_eq_ok he
      simp only [Except.map]
      rw [settle_waiting (by rfl) (by exact hrunning)]
      exact strides_of_rest (.inl rfl) rfl rfl (by simp)
  | menu m =>
    rw [turn_menu hscript hrunning hs]
    exact strides_of_rest (.inl rfl) rfl rfl (by simp)
  | conditional c =>
    cases he : p.entry p.index c with
    | ok target =>
      rw [turn_conditional hscript hs he]
      refine .keeps (.inl rfl) rfl rfl fun _ => ⟨?_, script, hscript, hsize⟩
      exact entry_forward hg hs he
    | error e =>
      rw [turn_conditional_error hscript hs he]
      exact .fails e (.inl rfl) rfl rfl
  | close =>
    rw [turn_close hscript hs]
    exact .keeps (.inl rfl) rfl rfl fun _ => ⟨Nat.lt_succ_self _, script, hscript, hsize⟩
  | jump label =>
    rw [turn_of_execute hscript hs hr]
    cases label with
    | some label => exact strides_leave hscript hrunning hsize label
    | none => exact strides_leave hscript hrunning hsize defaultOutlet
  | option text own => exact hmarker own rfl
  | branch condition own => exact hmarker own rfl
  | otherwise own => exact hmarker own rfl
  | command c => exact absurd (List.mem_of_getElem? hs) (hg.no_command c)

theorem strides_turn (hg : ∀ script, p.script = some script → Grown script.sentences)
    (hrunning : p.status = .running) : Strides p p.turn := by
  cases hscript : p.script with
  | none =>
    have hturn : p.turn = .ok p.finish := by simp only [turn, hscript]
    rw [hturn]
    exact strides_of_rest (.inl rfl) rfl rfl (by simp [finish])
  | some script =>
    cases hs : script.sentence? p.index with
    | none =>
      have hturn : p.turn = p.atEnd := by simp only [turn, hscript, hs]
      rw [hturn]
      exact strides_atEnd hrunning
    | some s =>
      cases hr : p.redirect? script s with
      | none => exact strides_execute (hg script hscript) hscript hrunning hs hr
      | some target =>
        rw [turn_of_redirect hscript hs hr]
        obtain ⟨own, _, hown, hexit⟩ := redirect?_exit hr
        have hforward := ((hg script hscript).attached.owned _ _ _ hs hown).2.2 _ hexit
        exact .keeps (.inl rfl) rfl rfl fun _ =>
          ⟨hforward, script, hscript, (List.getElem?_eq_some_iff.mp hs).1⟩

end

/-- The stations at which the turns of a run arrive. Of a player that is running, only one that has
just been given a script stands at its first sentence. -/
def arrivals : Nat → Player Chain → List Station
  | 0, _ => []
  | turns + 1, p =>
    if p.status = .running then
      match p.turn with
      | .ok q =>
        if q.status = .running ∧ q.index = 0 then q.director.station :: arrivals turns q
        else arrivals turns q
      | .error _ => []
    else []

/-- The sentences that are left of the script. -/
def left (p : Player Chain) : Nat :=
  match p.script with
  | none => 0
  | some script => script.size - p.index

/-- The player walks the chain and plays one of its scripts. -/
structure Fit (c : Chain) (store : Store) (p : Player Chain) : Prop where
  walked : Walked c p.director
  store : p.store = store
  script : ∀ script, p.script = some script → script ∈ c.scripts

/-- The player is about to play the story on which its chain stands. -/
def Arrived (c : Chain) (store : Store) (p : Player Chain) : Prop :=
  ∃ d script, p.course = .opening d store script ∧ Walked c d ∧ d.ended = false ∧
    c.arrival d.current = .ok (.story script)

section
variable {c : Chain} {store : Store} {p q : Player Chain}

theorem Led.walked (h : Led p q) (hp : Walked c p.director) : Walked c q.director := by
  rcases h with h | ⟨outlet, h⟩
  · rw [h]
    exact hp
  · rw [h]
    exact hp.leaveBy outlet

namespace Arrived

theorem running (h : Arrived c store p) : p.status = .running ∧ p.index = 0 := by
  obtain ⟨d, script, hcourse, _⟩ := h
  exact ⟨congrArg Course.status hcourse, congrArg Course.index hcourse⟩

theorem fit (h : Arrived c store p) : Fit c store p := by
  obtain ⟨d, script, hcourse, hwalked, _, harrival⟩ := h
  have hdirector : p.director = d := congrArg Course.director hcourse
  have hscript : p.script = some script := congrArg Course.script hcourse
  refine ⟨by rwa [hdirector], congrArg Course.store hcourse, fun other hother => ?_⟩
  obtain rfl := Option.some.inj (hscript.symm.trans hother)
  exact Chain.arrival_story harrival

/-- Nothing but the station decides how a player that has arrived goes on. -/
theorem course_eq (hp : Arrived c store p) (hq : Arrived c store q)
    (h : p.director.station = q.director.station) : p.course = q.course := by
  obtain ⟨d, script, hpcourse, hd, hdended, hscript⟩ := hp
  obtain ⟨d', script', hqcourse, hd', hdended', hscript'⟩ := hq
  have hpdirector : p.director = d := congrArg Course.director hpcourse
  have hqdirector : q.director = d' := congrArg Course.director hqcourse
  rw [hpdirector, hqdirector] at h
  obtain rfl := hd.eq_of_station hd' (hdended.trans hdended'.symm) h
  rw [hscript] at hscript'
  obtain rfl := Chain.Arrival.story.inj (Except.ok.inj hscript')
  rw [hpcourse, hqcourse]

end Arrived

theorem Fit.arrived {outlet : String} {d : Chain} {script : Script} (h : Fit c store p)
    (hleave : p.director.leaveBy outlet = (.ok (.story script), d))
    (hcourse : q.course = .opening d p.store script) : Arrived c store q := by
  have hwalked := h.walked.leaveBy outlet
  rw [hleave] at hwalked
  obtain ⟨harrival, hended⟩ := Chain.leaveBy_story hleave
  refine ⟨d, script, ?_, hwalked, hended, ?_⟩
  · rw [hcourse, h.store]
  · rw [← hwalked.arrival_eq]
    exact harrival

theorem Fit.of_ok (h : Fit c store p) (hturn : Strides p (.ok q)) : Fit c store q := by
  cases hturn with
  | keeps hled hscript hstore _ =>
    refine ⟨hled.walked h.walked, hstore.trans h.store, ?_⟩
    rw [hscript]
    exact h.script
  | arrives hleave hcourse => exact (h.arrived hleave hcourse).fit

theorem Fit.of_error {e : RunError} (h : Fit c store p) (hturn : Strides p (.error (e, q))) :
    Fit c store q.abort := by
  cases hturn with
  | fails _ hled hscript hstore =>
    refine ⟨hled.walked h.walked, hstore.trans h.store, fun script hq => ?_⟩
    exact h.script script (hscript.symm.trans hq)

theorem Fit.left_le (h : Fit c store p) : left p ≤ c.longest := by
  unfold left
  split
  · exact Nat.zero_le _
  · rename_i script hscript
    exact Nat.le_trans (Nat.sub_le _ _) (Chain.size_le_longest (h.script script hscript))

end

/-- How a run goes on. -/
inductive Goes (c : Chain) (store : Store) (p : Player Chain) : Prop
  | rests : p.status ≠ .running → Goes c store p
  | fails {e : RunError} {q : Player Chain} : p.status = .running → Fit c store q →
      (∀ n, run (n + 1) p = .failed e q) → (∀ n, arrivals (n + 1) p = []) → Goes c store p
  | forward {q : Player Chain} : p.status = .running → Fit c store q →
      (q.status = .running → left q < left p) →
      (∀ n, run (n + 1) p = run n q) → (∀ n, arrivals (n + 1) p = arrivals n q) → Goes c store p
  | arrives {q : Player Chain} : p.status = .running → Arrived c store q →
      (∀ n, run (n + 1) p = run n q) →
      (∀ n, arrivals (n + 1) p = q.director.station :: arrivals n q) → Goes c store p

theorem arrivals_of_not_running {turns : Nat} {p : Player Chain} (h : p.status ≠ .running) :
    arrivals turns p = [] := by
  cases turns <;> simp [arrivals, h]

section
variable {c : Chain} {store : Store} {p q : Player Chain} {turns : Nat}
  (hg : ∀ script ∈ c.scripts, Grown script.sentences)
include hg

theorem Fit.goes (h : Fit c store p) : Goes c store p := by
  by_cases hrunning : p.status = .running
  · have hstrides : Strides p p.turn :=
      strides_turn (fun script hscript => hg script (h.script script hscript)) hrunning
    rcases hturn : p.turn with ⟨e, q⟩ | q <;> rw [hturn] at hstrides
    · refine .fails (e := e) hrunning (h.of_error hstrides) (fun n => ?_) (fun n => ?_)
      · simp only [run, if_pos hrunning, hturn]
      · simp only [arrivals, if_pos hrunning, hturn]
    · have hrun : ∀ n, run (n + 1) p = run n q := by
        intro n
        simp only [run, if_pos hrunning, hturn]
      have hq := h.of_ok hstrides
      cases hstrides with
      | keeps _ hscript _ hforward =>
        refine .forward hrunning hq (fun hnext => ?_) hrun (fun n => ?_)
        · obtain ⟨hlt, script, hp, hsize⟩ := hforward hnext
          simp only [left, hscript, hp]
          omega
        · -- a turn inside the script has left its first sentence behind
          have hinside : ¬(q.status = .running ∧ q.index = 0) := by
            rintro ⟨hnext, hindex⟩
            have hlt := (hforward hnext).1
            omega
          simp only [arrivals, if_pos hrunning, hturn, if_neg hinside]
      | arrives hleave hcourse =>
        have harrived := h.arrived hleave hcourse
        refine .arrives hrunning harrived hrun fun n => ?_
        simp only [arrivals, if_pos hrunning, hturn, if_pos harrived.running]
  · exact .rests hrunning

theorem Fit.run (h : Fit c store p) (turns : Nat) : Fit c store (run turns p).player := by
  induction turns generalizing p with
  | zero =>
    unfold Player.run
    split <;> exact h
  | succ turns ih =>
    rcases h.goes hg with hidle | ⟨_, hq, hrun, _⟩ | ⟨_, hq, _, hrun, _⟩ | ⟨_, hq, hrun, _⟩
    · rw [run_of_not_running hidle]
      exact h
    · rw [hrun]
      exact hq
    · rw [hrun]
      exact ih hq
    · rw [hrun]
      exact ih hq.fit

/-- A run that is going on has taken no more turns than the scripts at which it arrived have
sentences, and one for each end. -/
theorem turns_le_of_not_returned (h : Fit c store p)
    (hunfinished : (run turns p).returned = false) :
    turns ≤ left p + (arrivals turns p).length * (c.longest + 1) := by
  have hrunning : ∀ {turns} {q : Player Chain}, (Player.run turns q).returned = false →
      q.status = .running := by
    intro turns q hrun
    by_contra hidle
    simp [run_of_not_running hidle, Outcome.returned] at hrun
  induction turns generalizing p with
  | zero => exact Nat.zero_le _
  | succ turns ih =>
    rcases h.goes hg with hrests | ⟨_, _, hrun, _⟩ | ⟨_, hq, hleft, hrun, harrivals⟩ |
      ⟨_, hq, hrun, harrivals⟩
    · exact absurd (hrunning hunfinished) hrests
    · simp [hrun, Outcome.returned] at hunfinished
    · rw [hrun] at hunfinished
      have hturns := ih hq hunfinished
      have hfewer := hleft (hrunning hunfinished)
      rw [harrivals]
      omega
    · rw [hrun] at hunfinished
      have hturns := ih hq.fit hunfinished
      have hlongest := hq.fit.left_le
      rw [harrivals, List.length_cons, Nat.succ_mul]
      omega

theorem arrivals_subset (h : Fit c store p) : arrivals turns p ⊆ c.stations := by
  induction turns generalizing p with
  | zero => exact List.nil_subset _
  | succ turns ih =>
    rcases h.goes hg with hidle | ⟨_, _, _, harrivals⟩ | ⟨_, hq, _, _, harrivals⟩ |
      ⟨_, hq, _, harrivals⟩
    · rw [arrivals_of_not_running hidle]
      exact List.nil_subset _
    · rw [harrivals]
      exact List.nil_subset _
    · rw [harrivals]
      exact ih hq
    · rw [harrivals]
      exact List.cons_subset.mpr ⟨hq.fit.walked.station_mem, ih hq.fit⟩

/-- A run that comes to no station twice comes to an end. -/
theorem exists_returned_of_nodup (h : Fit c store p)
    (hnodup : ∀ turns, (arrivals turns p).Nodup) : ∃ turns, (run turns p).returned = true := by
  let most := left p + c.stations.length * (c.longest + 1)
  refine ⟨most + 1, ?_⟩
  cases hreturned : (run (most + 1) p).returned with
  | true => rfl
  | false =>
    have hturns := turns_le_of_not_returned hg h hreturned
    have hlength : (arrivals (most + 1) p).length ≤ c.stations.length :=
      (List.subperm_of_subset (hnodup _) (arrivals_subset hg h)).length_le
    have hmul := Nat.mul_le_mul_right (c.longest + 1) hlength
    omega

/-- A run that arrives at a station goes on from an arrival there. -/
theorem exists_arrived_of_mem (h : Fit c store p) {s : Station} (hs : s ∈ arrivals turns p) :
    ∃ q k, (∀ n, run (n + k + 1) p = run n q) ∧ Arrived c store q ∧ q.director.station = s := by
  induction turns generalizing p with
  | zero => exact absurd hs List.not_mem_nil
  | succ turns ih =>
    have hlater : ∀ q : Player Chain, Fit c store q → (∀ n, run (n + 1) p = run n q) →
        s ∈ arrivals turns q → ∃ r k, (∀ n, run (n + k + 1) p = run n r) ∧
          Arrived c store r ∧ r.director.station = s := by
      intro q hq hrun hmem
      obtain ⟨r, k, hk, hr⟩ := ih hq hmem
      refine ⟨r, k + 1, fun n => ?_, hr⟩
      rw [hrun]
      exact hk n
    rcases h.goes hg with hidle | ⟨_, _, _, harrivals⟩ | ⟨_, hq, _, hrun, harrivals⟩ |
      ⟨_, hq, hrun, harrivals⟩
    · rw [arrivals_of_not_running hidle] at hs
      exact absurd hs List.not_mem_nil
    · rw [harrivals] at hs
      exact absurd hs List.not_mem_nil
    · rw [harrivals] at hs
      exact hlater _ hq hrun hs
    · rw [harrivals] at hs
      rcases List.mem_cons.mp hs with rfl | hs
      · exact ⟨_, 0, hrun, hq, rfl⟩
      · exact hlater _ hq.fit hrun hs

/-- A player that comes back to the station at which it has arrived goes on for ever. -/
theorem not_returned_of_arrives_again (h : Arrived c store p)
    (hagain : p.director.station ∈ arrivals turns p) (n : Nat) :
    (run n p).returned = false := by
  obtain ⟨q, k, hk, hq, hstation⟩ := exists_arrived_of_mem hg h.fit hagain
  have hsame : ∀ n, (run n q).returned = (run n p).returned := fun n =>
    returned_of_course (hq.course_eq h hstation) n
  -- the run from the second arrival is shorter, and it ends exactly if the whole run does
  induction n using Nat.strong_induction_on with
  | h n ih =>
    by_contra hreturned
    rw [Bool.not_eq_false] at hreturned
    by_cases hn : n < k + 1
    · have hlonger : run (0 + k + 1) p = run n p := by
        rw [← run_add_of_returned hreturned (k + 1 - n)]
        congr 1
        omega
      rw [← hlonger, hk, Player.run, if_pos hq.running.1] at hreturned
      simp [Outcome.returned] at hreturned
    · obtain ⟨m, rfl⟩ : ∃ m, n = m + k + 1 := ⟨n - (k + 1), by omega⟩
      rw [hk, hsame, ih m (by omega)] at hreturned
      simp at hreturned

theorem nodup_of_returned (h : Fit c store p) {enough : Nat}
    (hreturned : (run enough p).returned = true) : (arrivals turns p).Nodup := by
  induction turns generalizing p enough with
  | zero => exact List.nodup_nil
  | succ turns ih =>
    have hmore : p.status = .running → ∃ more, enough = more + 1 := by
      intro hrunning
      cases enough with
      | zero => simp [Player.run, hrunning, Outcome.returned] at hreturned
      | succ more => exact ⟨more, rfl⟩
    rcases h.goes hg with hidle | ⟨_, _, _, harrivals⟩ | ⟨hrunning, hq, _, hrun, harrivals⟩ |
      ⟨hrunning, hq, hrun, harrivals⟩
    · rw [arrivals_of_not_running hidle]
      exact List.nodup_nil
    · rw [harrivals]
      exact List.nodup_nil
    · obtain ⟨more, rfl⟩ := hmore hrunning
      rw [hrun] at hreturned
      rw [harrivals]
      exact ih hq hreturned
    · obtain ⟨more, rfl⟩ := hmore hrunning
      rw [hrun] at hreturned
      rw [harrivals]
      refine List.nodup_cons.mpr ⟨fun hagain => ?_, ih hq.fit hreturned⟩
      simp [not_returned_of_arrives_again hg hq hagain more] at hreturned

end

end Fabula.Player
