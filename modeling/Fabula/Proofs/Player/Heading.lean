import Fabula.Proofs.Player.OnePart
import Fabula.Proofs.Script.Misplaced

/-!
# The way to a sentence

When the conditions of a script can be had with any truth, some session comes in step to each
sentence of the script: at each block around the sentence it enters the latest part that begins
before, and it passes by all other blocks. Misplaced markers on the way do not stop it.
-/

namespace Fabula

namespace Script

namespace Sentence

def condition? : Sentence → Option String
  | conditional c => some c.condition
  | branch condition _ => some condition
  | _ => none

end Sentence

/-- The store gives each condition the truth that `f` has for its place, and fills in all texts. -/
structure Obeys (script : Script) (store : Store) (f : Nat → Bool) : Prop where
  condition : ∀ i s c, script.sentences[i]? = some s → s.condition? = some c →
    Condition.evaluate? store c = some (f i)
  text : ∀ line, .say line ∈ script.sentences → ∃ text, Template.render? store line.text = some text

/-- The conditions of the script can be had with any truth. -/
def Free (script : Script) : Prop := ∀ f : Nat → Bool, ∃ store, Obeys script store f

end Script

namespace Player

open Script (Sentence Grown AllClosed MarkerOf DirectMarker DirectAt HeadsFor Obeys latest lines
  openBefore)

section Entering
variable {script : Script} {p : Player SingleScript} {f : Nat → Bool}

theorem decide_of_obeys (ho : Obeys script p.store f) {i : Nat} {s : Sentence} {c : String}
    (hs : script.sentences[i]? = some s) (hc : s.condition? = some c) :
    p.decide c = .ok (f i) := by
  rw [decide, ho.condition i s c hs hc]

theorem firstHolding_of_truths {branches : List Script.Branch}
    (hsorted : branches.Pairwise fun a b => a.target < b.target)
    (htruth : ∀ b ∈ branches, ∃ i, b.target = i + 1 ∧ p.decide b.condition = .ok (f i)) :
    (p.firstHolding branches = .ok none ∧ ∀ b ∈ branches, ∀ i, b.target = i + 1 → f i = false) ∨
      ∃ i, p.firstHolding branches = .ok (some (i + 1)) ∧ f i = true ∧
        (∃ b ∈ branches, b.target = i + 1) ∧
        ∀ b ∈ branches, ∀ k, b.target = k + 1 → f k = true → i ≤ k := by
  induction branches with
  | nil => exact .inl ⟨rfl, by simp⟩
  | cons b rest ih =>
    obtain ⟨hfirst, hsorted⟩ := List.pairwise_cons.mp hsorted
    obtain ⟨i, htarget, hdecide⟩ := htruth b (by simp)
    cases hi : f i with
    | true =>
      right
      refine ⟨i, by simp [firstHolding, hdecide, hi, htarget], hi, ⟨b, by simp, htarget⟩, ?_⟩
      intro d hd k hk _
      rcases List.mem_cons.mp hd with rfl | hd
      · omega
      · have := hfirst d hd
        omega
    | false =>
      have hskip : p.firstHolding (b :: rest) = p.firstHolding rest := by
        simp [firstHolding, hdecide, hi]
      rw [hskip]
      rcases ih hsorted fun d hd => htruth d (by simp [hd]) with ⟨hnone, hall⟩ | ⟨k, hk, hfk, ⟨d, hd, hdk⟩, hleast⟩
      · left
        refine ⟨hnone, fun d hd k hk => ?_⟩
        rcases List.mem_cons.mp hd with rfl | hd
        · obtain rfl : i = k := by omega
          exact hi
        · exact hall d hd k hk
      · right
        refine ⟨k, hk, hfk, ⟨d, by simp [hd], hdk⟩, fun g hg m hm hfm => ?_⟩
        rcases List.mem_cons.mp hg with rfl | hg
        · obtain rfl : i = m := by omega
          simp [hi] at hfm
        · exact hleast g hg m hm hfm

/-- With the truths that lead to `j`, control enters a conditional at the last marker before `j`
that leads away. -/
theorem entry_at_last (hg : Grown script.sentences) {n m j : Nat} {c : Script.Conditional}
    (ho : Obeys script p.store (latest script.sentences j))
    (hc : script.sentences[n]? = some (.conditional c))
    (hn : latest script.sentences j n = false) (hmj : m < j)
    (hm : DirectMarker script.sentences n m)
    (hlast : ∀ i, i < j → DirectMarker script.sentences n i → i ≤ m) :
    p.entry n c = .ok (m + 1) := by
  obtain ⟨s, hs, hown⟩ := hm.marker
  have hfm := Script.latest_of_last hg hm.marker hlast
  have hdecide : p.decide c.condition = .ok false := by rw [decide_of_obeys ho hc rfl, hn]
  have hentry : p.entry n c = (p.firstHolding c.branches).map fun target =>
      target.getD (c.otherwise.getD (Script.exitPoint c.exit n)) := by
    simp only [entry, hdecide]
  have htruth : ∀ b ∈ c.branches, ∃ i, b.target = i + 1 ∧
      p.decide b.condition = .ok (latest script.sentences j i) := by
    intro b hb
    obtain ⟨i, htarget, hi⟩ := hg.attached.branch_marker hc hb
    exact ⟨i, htarget, decide_of_obeys ho hi rfl⟩
  rw [hentry]
  rcases firstHolding_of_truths (hg.attached.branches_increasing hc) htruth with
    ⟨hnone, hall⟩ | ⟨i, hfirst, hfi, ⟨b, hb, hbi⟩, hleast⟩
  · rw [hnone]
    rcases hg.attached.marker_branch hc hs hown with ⟨b, hb, hbm⟩ | hother
    · simp [hall b hb m hbm] at hfm
    · rw [hother]
      rfl
  · rw [hfirst]
    -- a marker before `m` does not hold, for `m` leads away after it
    have hmi : ¬ i < m := by
      obtain ⟨k, hk, hsk⟩ := hg.attached.branch_marker hc hb
      obtain rfl : i = k := by omega
      intro hlt
      have := Script.latest_eq_true_iff.mp hfi n (.inr ⟨_, hsk, rfl⟩) m hm hlt
      omega
    have him : i ≤ m := by
      rcases hg.attached.marker_branch hc hs hown with ⟨d, hd, hdm⟩ | hother
      · exact hleast d hd m hdm hfm
      · have := hg.attached.branches_before hc hother hb
        omega
    obtain rfl : i = m := by omega
    rfl

/-- Control enters past the last marker before `j` that leads away, or at the first sentence of
the conditional when there is none. -/
theorem entry_toward (hg : Grown script.sentences) {n j : Nat} {c : Script.Conditional}
    (ho : Obeys script p.store (latest script.sentences j)) (hnj : n < j)
    (hc : script.sentences[n]? = some (.conditional c)) :
    ∃ t, p.entry n c = .ok t ∧ n < t ∧ t ≤ j ∧ DirectAt script.sentences n t ∧
      ∀ m, m < j → DirectMarker script.sentences n m → m < t := by
  cases hn : latest script.sentences j n with
  | true =>
    have hdecide : p.decide c.condition = .ok true := by rw [decide_of_obeys ho hc rfl, hn]
    refine ⟨n + 1, by simp [entry, hdecide], Nat.lt_succ_self n, hnj,
      Script.directAt_of_le hg (Nat.le_refl _), fun m hm hmark => ?_⟩
    obtain ⟨s, hs, hown⟩ := hmark.marker
    have hlt := (hg.attached.owned m s n hs hown).1
    have := Script.latest_eq_true_iff.mp hn n (.inl rfl) m hmark hlt
    omega
  | false =>
    obtain ⟨m, hmj, hm, hlast⟩ :=
      Script.exists_last (Script.exists_direct_of_not_latest hc rfl hn)
    obtain ⟨s, hs, hown⟩ := hm.marker
    have hnm := (hg.attached.owned m s n hs hown).1
    exact ⟨m + 1, entry_at_last hg ho hc hn hmj hm hlast, by omega, hmj, hm.directAt,
      fun i hi hmark => Nat.lt_succ_of_le (hlast i hi hmark)⟩

end Entering

/-- In step and on the way to `j`, with all the blocks around among what was executed. -/
structure Heading (script : Script) (j : Nat) (p : Player SingleScript) (seen : List Nat) :
    Prop where
  inStep : InStep script p
  running : p.status = .running
  heads : HeadsFor script.sentences j p.index
  around : ∀ own ∈ openBefore (lines script.sentences) p.index, own ∈ seen
  director : p.director = ⟨none⟩
  obeys : Obeys script p.store (latest script.sentences j)

section Way
variable {script : Script} {p q : Player SingleScript} {j turns : Nat} {seen : List Nat}

theorem Heading.move (h : Heading script j p seen) (hq : InStep script q)
    (hrunning : q.status = .running) (hheads : HeadsFor script.sentences j q.index)
    (haround : ∀ own ∈ openBefore (lines script.sentences) q.index,
      own ∈ openBefore (lines script.sentences) p.index ∨ p.executing? = some own)
    (hdirector : q.director = p.director) (hstore : q.store = p.store) :
    Heading script j q (seen ++ p.executing?.toList) where
  inStep := hq
  running := hrunning
  heads := hheads
  around own hown := by
    rcases haround own hown with hin | hexec
    · exact List.mem_append_left _ (h.around own hin)
    · exact List.mem_append_right _ (by simp [hexec])
  director := hdirector.trans h.director
  obeys := hstore ▸ h.obeys

theorem Heading.step (h : Heading script j p seen) (hlt : p.index < j) {s : Sentence}
    (hs : script.sentences[p.index]? = some s) (ho : s.line.isOpener = false) :
    HeadsFor script.sentences j (p.index + 1) ∧
      ∀ own ∈ openBefore (lines script.sentences) (p.index + 1),
        own ∈ openBefore (lines script.sentences) p.index ∨ p.executing? = some own :=
  ⟨h.heads.step hlt hs ho, fun _ hown => .inl (Script.mem_openBefore_of_plain hs ho hown)⟩

theorem Heading.enter (h : Heading script j p seen) {s : Sentence} {t : Nat}
    (hs : script.sentences[p.index]? = some s) (ho : s.owner? = none)
    (hnt : p.index < t) (htj : t ≤ j)
    (ht : openBefore (lines script.sentences) t =
      p.index :: openBefore (lines script.sentences) p.index)
    (hpast : ∀ m, m < j → DirectMarker script.sentences p.index m → m < t) :
    HeadsFor script.sentences j t ∧ ∀ own ∈ openBefore (lines script.sentences) t,
      own ∈ openBefore (lines script.sentences) p.index ∨ p.executing? = some own := by
  have hexec := executing?_of_plain (h.inStep.running h.running).1 hs ho
  refine ⟨h.heads.enter hnt htj ht fun _ m hm hmj => hpast m hmj hm, fun own hown => ?_⟩
  rw [ht] at hown
  rcases List.mem_cons.mp hown with rfl | hown
  · exact .inr hexec
  · exact .inl hown

/-- A player on the way comes nearer, by a turn or by a turn and a request. -/
def Nearer (script : Script) (turns j : Nat) (p : Player SingleScript) (seen : List Nat) : Prop :=
  ∃ q requests, p.index < q.index ∧ Heading script j q (seen ++ p.executing?.toList) ∧
    ∀ rs, visits turns p (requests ++ rs) = p.executing?.toList ++ visits turns q rs

section
variable (hg : Grown script.sentences) (hturns : script.size < turns)
include hg hturns

theorem Heading.nearer_by_turn (h : Heading script j p seen) (hturn : p.turn = .ok q)
    (hq : q.status = .running) (hd : DirectAt script.sentences p.index q.index)
    (hheads : HeadsFor script.sentences j q.index)
    (haround : ∀ own ∈ openBefore (lines script.sentences) q.index,
      own ∈ openBefore (lines script.sentences) p.index ∨ p.executing? = some own) :
    Nearer script turns j p seen := by
  have hscript := (h.inStep.running h.running).1
  have hkeeps := turn_keeps hg hscript h.running hturn
  have hstep := (turns_of_turn hg hscript h.running hturn).inStep hg h.running h.inStep hd
  exact ⟨q, [], (turn_forward hg hscript h.running hturn hq).1,
    h.move hstep hq hheads haround hkeeps.2.1 hkeeps.2.2,
    visits_of_turn hg hturns hscript h.running hturn⟩

theorem Heading.nearer_by_request (h : Heading script j p seen) (hturn : p.turn = .ok q)
    (hq : q.index = p.index) {r : Request} {next : Player SingleScript}
    (hr : q.resume r = .ok next) (hd : DirectAt script.sentences p.index next.index)
    (hforward : p.index < next.index) (hheads : HeadsFor script.sentences j next.index)
    (haround : ∀ own ∈ openBefore (lines script.sentences) next.index,
      own ∈ openBefore (lines script.sentences) p.index ∨ p.executing? = some own) :
    Nearer script turns j p seen := by
  have hscript := (h.inStep.running h.running).1
  have hkeeps := turn_keeps hg hscript h.running hturn
  have hresumes := resume_keeps hr
  have hstep := (turns_of_turn hg hscript h.running hturn).inStep hg h.running h.inStep
    (Script.directAt_of_le hg (by omega))
  have hnext := hstep.resume hg hr (hq.symm ▸ hd)
  exact ⟨next, [r], hforward, h.move hnext (resume_running hr).2 hheads haround
    (hresumes.2.1.trans hkeeps.2.1) (hresumes.2.2.trans hkeeps.2.2),
    visits_of_wait hg hturns hscript h.running hturn hr⟩

/-- A marker that stands directly in its block leads past the block, another leads nowhere. -/
theorem Heading.nearer_by_marker (h : Heading script j p seen)
    (hclosed : AllClosed script.sentences) (hlt : p.index < j) {s : Sentence} {own : Nat}
    (hs : script.sentences[p.index]? = some s) (ho : s.owner? = some own) :
    Nearer script turns j p seen := by
  obtain ⟨hscript, hscopes⟩ := h.inStep.running h.running
  have hplain := (Script.marker_plain ho).1
  by_cases hhead : (openBefore (lines script.sentences) p.index).head? = some own
  · obtain ⟨e, hexit⟩ := Script.exit_of_owner hg hclosed hs ho
    have hr := redirect?_of_head (p := p) hg hs ho (hscopes ▸ hhead) hexit
    obtain ⟨hheads, hforward⟩ := h.heads.leave hg hlt ⟨⟨s, hs, ho⟩, hhead⟩ hexit
    refine h.nearer_by_turn hg hturns (turn_of_redirect hscript hs hr) h.running
      (Script.directAt_of_plain hg hs hplain _) hheads ?_
    intro outer houter
    rw [Script.openBefore_exit hg.matched hexit, ← Script.openBefore_of_head hhead] at houter
    exact .inl houter
  · have hr : p.redirect? script s = none := redirect?_of_not_head ho (hscopes ▸ hhead)
    obtain ⟨hheads, haround⟩ := h.step hlt hs hplain
    exact h.nearer_by_turn hg hturns (turn_marker hscript hs ho hr) h.running
      (Script.directAt_of_plain hg hs hplain _) hheads haround

theorem Heading.nearer_by_menu (h : Heading script j p seen) (hlt : p.index < j)
    {m : Script.Menu} (hs : script.sentences[p.index]? = some (.menu m)) :
    Nearer script turns j p seen := by
  have hscript := (h.inStep.running h.running).1
  have hturn := turn_menu hscript h.running hs
  have hwaits := waitingMenu?_of_menu hscript hs (p.events ++ [.menu (m.options.map (·.text))])
  by_cases hex : ∃ i, i < j ∧ DirectMarker script.sentences p.index i
  · obtain ⟨i, hij, hi, hlast⟩ := Script.exists_last hex
    obtain ⟨s, hsi, ho⟩ := hi.marker
    have hni := (hg.attached.owned i s p.index hsi ho).1
    obtain ⟨o, hmem, htarget⟩ := hg.attached.marker_option hs hsi ho
    obtain ⟨k, hk⟩ := List.getElem?_of_mem hmem
    have hr := resume_choose_of_menu hwaits hk
    have hbody := Script.openBefore_body hsi ho hi.inner
    obtain ⟨hheads, haround⟩ := h.enter hs rfl (t := i + 1) (by omega) hij hbody
      fun l hl hmark => Nat.lt_succ_of_le (hlast l hl hmark)
    refine h.nearer_by_request hg hturns hturn rfl hr ?_ ?_ ?_ ?_
    · show DirectAt _ p.index o.target
      rw [htarget]
      exact hi.directAt
    · show p.index < o.target
      omega
    · show HeadsFor _ j o.target
      rwa [htarget]
    · show ∀ own ∈ openBefore _ o.target, _
      rwa [htarget]
  · have hr := resume_proceed_of_menu hwaits
    obtain ⟨hheads, haround⟩ := h.enter hs rfl (Nat.lt_succ_self _) hlt
      (Script.openBefore_opener hs rfl) fun l hl hmark => absurd ⟨l, hl, hmark⟩ hex
    exact h.nearer_by_request hg hturns hturn rfl hr (Script.directAt_of_le hg (Nat.le_refl _))
      (Nat.lt_succ_self _) hheads haround

theorem Heading.nearer (h : Heading script j p seen) (hclosed : AllClosed script.sentences)
    (hj : j < script.size) (hlt : p.index < j) : Nearer script turns j p seen := by
  have hscript := (h.inStep.running h.running).1
  have hsize : p.index < script.sentences.length := Nat.lt_trans hlt hj
  have hnext : DirectAt script.sentences p.index (p.index + 1) :=
    Script.directAt_of_le hg (Nat.le_refl _)
  obtain ⟨s, hs⟩ : ∃ s, script.sentences[p.index]? = some s :=
    ⟨_, List.getElem?_eq_getElem hsize⟩
  cases s with
  | option text own => exact h.nearer_by_marker hg hturns hclosed hlt hs rfl
  | branch c own => exact h.nearer_by_marker hg hturns hclosed hlt hs rfl
  | otherwise own => exact h.nearer_by_marker hg hturns hclosed hlt hs rfl
  | command c => exact absurd (List.mem_of_getElem? hs) (hg.no_command c)
  | menu m => exact h.nearer_by_menu hg hturns hlt hs
  | close =>
    obtain ⟨hheads, haround⟩ := h.step hlt hs rfl
    exact h.nearer_by_turn hg hturns (turn_close hscript hs) h.running hnext hheads haround
  | jump label =>
    obtain ⟨hheads, haround⟩ := h.step hlt hs rfl
    exact h.nearer_by_turn hg hturns (turn_jump hscript hs) h.running hnext hheads haround
  | say line =>
    obtain ⟨text, ht⟩ := h.obeys.text line (List.mem_of_getElem? hs)
    obtain ⟨hheads, haround⟩ := h.step hlt hs rfl
    have hturn := turn_say hscript h.running h.director hs ht
    have hr := resume_proceed_of_line rfl (waitingMenu?_of_say hscript hs
      (p.events ++ [speakerEvent line] ++ [.text text]))
    exact h.nearer_by_request hg hturns hturn rfl hr hnext (Nat.lt_succ_self _) hheads haround
  | conditional c =>
    obtain ⟨t, he, hnt, htj, hdirect, hpast⟩ := entry_toward hg h.obeys hlt hs
    obtain ⟨hheads, haround⟩ := h.enter hs rfl hnt htj (entry_scopes hg hs hdirect he) hpast
    exact h.nearer_by_turn hg hturns (turn_conditional hscript hs he) h.running hdirect hheads
      haround

/-- On the way to a sentence, some requests bring the player there. -/
theorem Heading.arrives (h : Heading script j p seen) (hclosed : AllClosed script.sentences)
    (hj : j < script.size) : ∃ q requests later, q.index = j ∧ Heading script j q (seen ++ later) ∧
      ∀ rs, visits turns p (requests ++ rs) = later ++ visits turns q rs := by
  induction hn : j - p.index using Nat.strong_induction_on generalizing p seen with
  | _ n ih =>
    rcases Nat.lt_or_eq_of_le h.heads.before with hlt | heq
    · obtain ⟨q, requests, hforward, hq, hvisits⟩ := h.nearer hg hturns hclosed hj hlt
      obtain ⟨r, more, later, hr, hheading, hrest⟩ := ih (j - q.index) (by omega) hq rfl
      refine ⟨r, requests ++ more, p.executing?.toList ++ later, hr, ?_, fun rs => ?_⟩
      · rwa [← List.append_assoc]
      · rw [List.append_assoc, hvisits, hrest, List.append_assoc]
    · exact ⟨p, [], [], heq, by rwa [List.append_nil], fun rs => rfl⟩

end

end Way

/-- Some session comes in step to each sentence of a script whose conditions can be had with any
truth. -/
theorem exists_arrival {script : Script} (hg : Grown script.sentences)
    (hclosed : AllClosed script.sentences) (hfree : Script.Free script) {j turns : Nat}
    (hj : j < script.size) (hturns : script.size < turns) :
    ∃ (p q : Player SingleScript) (requests : List Request) (later : List Nat), q.index = j ∧
      Heading script j q later ∧
      ∀ rs, visits turns (p.started script false) (requests ++ rs) = later ++ visits turns q rs := by
  obtain ⟨store, hobeys⟩ := hfree (latest script.sentences j)
  have hstart : Heading script j ((Player.new ⟨none⟩ store).started script false) [] :=
    { inStep := inStep_started _ script false
      running := rfl
      heads := .zero _ j
      around := fun own hown => absurd hown (by simp [started, load])
      director := rfl
      obeys := hobeys }
  obtain ⟨q, requests, later, hq, hheading, hvisits⟩ := hstart.arrives hg hturns hclosed hj
  exact ⟨_, q, requests, later, hq, hheading, hvisits⟩

end Player

end Fabula
