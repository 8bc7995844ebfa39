import Mathlib.Data.List.Nodup
import Mathlib.Data.List.Perm.Subperm
import Fabula.Proofs.Player.Cues
import Fabula.Proofs.Script.Written

/-!
# Equal scripts

Equal scripts have the same sentences and declare the same characters, but not always in the same
order, and the order says for whom a speaker stands. A host that plays one of them instead of the
other is answered alike up to the first line whose speaker stands for somebody else there, and
there the answers differ.
-/

namespace Fabula

namespace Script

section
variable {a b : Script}

theorem perm_of_sameNames {xs ys : List String} (hxs : xs.Nodup) (h : sameNames xs ys = true) :
    xs.Perm ys := by
  simp only [sameNames, Bool.and_eq_true, beq_iff_eq, List.all_eq_true, List.contains_iff_mem] at h
  exact (hxs.subperm h.2).perm_of_length_le h.1.ge

/-- Equal scripts that were compiled differ in the order of their characters at most. -/
theorem eq_but_order_of_same (ha : a.Compiled) (hb : b.Compiled) (h : a.same b = true) :
    a.name = b.name ∧ a.sentences = b.sentences ∧ a.jumps = b.jumps ∧
      a.characters.Perm b.characters := by
  obtain ⟨_, _, hcompile⟩ := ha
  obtain ⟨_, _, hcompile'⟩ := hb
  have hfaithful := Compiler.faithful_of_compile hcompile
  have hfaithful' := Compiler.faithful_of_compile hcompile'
  simp only [same, Bool.and_eq_true, beq_iff_eq] at h
  obtain ⟨⟨⟨⟨hname, hsentences⟩, hcharacters⟩, _⟩, _⟩ := h
  refine ⟨hname, hsentences, ?_, perm_of_sameNames hfaithful.nodup hcharacters⟩
  calc a.jumps = ((lines a.sentences).flatMap Line.labels).foldl insertName [] := hfaithful.jumps
    _ = ((lines b.sentences).flatMap Line.labels).foldl insertName [] := by rw [hsentences]
    _ = b.jumps := hfaithful'.jumps.symm

theorem eq_of_idxOf? {xs ys : List String} (hxs : xs.Nodup) (hlength : xs.length = ys.length)
    (h : ∀ key, xs.idxOf? key = ys.idxOf? key) : xs = ys := by
  refine List.ext_getElem hlength fun i hi hi' => ?_
  have hplace : xs.idxOf? xs[i] = some i := by
    refine List.idxOf?_eq_some_iff.mpr ⟨hi, by simp, fun j hj => ?_⟩
    have hne : xs[j] ≠ xs[i] := fun heq => hj.ne ((hxs.getElem_inj_iff).mp heq)
    simpa using hne
  rw [h] at hplace
  obtain ⟨_, heq, _⟩ := List.idxOf?_eq_some_iff.mp hplace
  exact heq.symm

end

end Script

namespace Player

open Script (Sentence Say Conditional Grown)

/-- The player as it is, with another script in its hands. -/
def reading {D : Type} (script : Script) (p : Player D) : Player D :=
  { p with script := p.script.map fun _ => script }

def Attempt.reading {D : Type} (script : Script) : Attempt D → Attempt D
  | .ok p => .ok (p.reading script)
  | .error (e, p) => .error (e, p.reading script)

def Outcome.reading {D : Type} (script : Script) : Outcome D → Outcome D
  | .done p => .done (p.reading script)
  | .failed e p => .failed e (p.reading script)
  | .unfinished p => .unfinished (p.reading script)

/-- The cue, with the script if it is a cue to play. -/
def Cue.reading (script : Script) : Cue → Cue
  | .play _ callback => .play script callback
  | a => a

/-- The same calls, each with turns of its own, to play the script. -/
def calling (script : Script) (calls : List (Nat × Cue)) : List (Nat × Cue) :=
  calls.map fun call => (call.1, call.2.reading script)

/-- The ends of calls, one after the other. -/
def takeAll (p : Player SingleScript) : List (Nat × Cue) → List (Outcome SingleScript)
  | [] => []
  | (turns, a) :: calls => p.take turns a :: takeAll (p.take turns a).player calls

/-- The next turn says a line whose speaker stands for somebody else by the second script. -/
def Misnames (a b : Script) (p : Player SingleScript) : Prop :=
  ∃ line, p.sentence? = some (.say line) ∧ line.speaker ≠ "" ∧
    p.director.character? a line.speaker ≠ p.director.character? b line.speaker

/-- No turn of a run says such a line. -/
def NamesAlike (a b : Script) : Nat → Player SingleScript → Prop
  | 0, _ => True
  | turns + 1, p => p.status = .running →
    ¬ Misnames a b p ∧ ∀ q, p.turn = .ok q → NamesAlike a b turns q

/-- No turn in all of the calls says such a line. -/
def NamesAllAlike (a b : Script) : Player SingleScript → List (Nat × Cue) → Prop
  | _, [] => True
  | p, (turns, c) :: calls =>
    (∀ q, p.prompt c = .ok q → NamesAlike a b turns q) ∧
      NamesAllAlike a b (p.take turns c).player calls

/-- The player has no other script in its hands. -/
def OnlyReads (a : Script) (p : Player SingleScript) : Prop :=
  ∀ script, p.script = some script → script = a

section
variable {a b : Script} {p q : Player SingleScript}

@[simp] theorem reading_status (script : Script) (p : Player SingleScript) :
    (p.reading script).status = p.status := rfl

@[simp] theorem player_reading (script : Script) (o : Outcome SingleScript) :
    (o.reading script).player = o.player.reading script := by
  cases o <;> rfl

theorem reading_script (hscript : p.script = some a) (b : Script) :
    (p.reading b).script = some b := by
  rw [reading, hscript]
  rfl

theorem reading_eq_self (h : p.script = none) (b : Script) : p.reading b = p := by
  obtain ⟨⟩ := p
  obtain rfl : _ = none := h
  rfl

theorem OnlyReads.cases (h : OnlyReads a p) : p.script = none ∨ p.script = some a := by
  cases hscript : p.script with
  | none => exact .inl rfl
  | some script => exact .inr (by rw [h script hscript])

theorem sentence?_congr (h : a.sentences = b.sentences) (index : Nat) :
    b.sentence? index = a.sentence? index := by
  rw [Script.sentence?, Script.sentence?, h]

section
variable (h : a.sentences = b.sentences)
include h

theorem reading_sentence? (honly : OnlyReads a p) : (p.reading b).sentence? = p.sentence? := by
  rcases honly.cases with hscript | hscript
  · rw [reading_eq_self hscript]
  · rw [sentence?, sentence?, reading_script hscript, hscript, Option.bind_some, Option.bind_some]
    exact sentence?_congr h p.index

theorem reading_waitingMenu? (honly : OnlyReads a p) :
    (p.reading b).waitingMenu? = p.waitingMenu? := by
  rw [waitingMenu?, waitingMenu?, reading_sentence? h honly]
  rfl

theorem setCharacter_reading (hscript : p.script = some a) {key : String}
    (hkey : p.director.character? a key = p.director.character? b key) (extra : String) :
    (p.reading b).setCharacter key extra = (p.setCharacter key extra).reading b := by
  have honly : OnlyReads a p := fun script hs => (Option.some.inj (hscript.symm.trans hs)).symm
  have htext : (p.reading b).currentText = p.currentText := by
    rw [currentText, currentText, reading_sentence? h honly]
  have hname : Director.character? (p.reading b).director b key =
      Director.character? p.director a key := hkey.symm
  rw [setCharacter, setCharacter, reading_script hscript, hscript, Option.bind_some,
    Option.bind_some, hname, htext]
  cases Director.character? p.director a key <;> rfl

omit h in
theorem showText_reading (p : Player SingleScript) (content : String) :
    (p.reading b).showText content = (p.showText content).reading b := by
  unfold showText
  dsimp only [reading]
  cases Template.render? p.store content <;> rfl

theorem executeSay_reading (hscript : p.script = some a) {line : Say}
    (hkey : line.speaker ≠ "" →
      p.director.character? a line.speaker = p.director.character? b line.speaker) :
    (p.reading b).executeSay line = (p.executeSay line).reading b := by
  unfold executeSay
  dsimp only
  split
  · exact showText_reading p.clearCharacter line.text
  · rename_i hspeaker
    rw [setCharacter_reading h hscript (hkey hspeaker)]
    cases p.setCharacter line.speaker line.extra with
    | ok q => exact showText_reading q line.text
    | error failure => rfl

omit h in
theorem executeConditional_reading (p : Player SingleScript) (c : Conditional) :
    (p.reading b).executeConditional c = (p.executeConditional c).reading b := by
  have hentry : ((p.reading b).pushScope p.index).entry p.index c =
      (p.pushScope p.index).entry p.index c := entry_congr (by rfl) p.index c
  unfold executeConditional
  have hindex : (p.reading b).index = p.index := rfl
  simp only [hindex, hentry]
  cases (p.pushScope p.index).entry p.index c <;> rfl

theorem execute_reading (hscript : p.script = some a) {s : Sentence}
    (hcommand : ∀ c, s ≠ .command c)
    (hkey : ∀ line, s = .say line → line.speaker ≠ "" →
      p.director.character? a line.speaker = p.director.character? b line.speaker) :
    (p.reading b).execute s = (p.execute s).reading b := by
  cases s with
  | say line => exact executeSay_reading h hscript (hkey line rfl)
  | conditional c => exact executeConditional_reading p c
  | jump label => cases label <;> rfl
  | command c => exact absurd rfl (hcommand c)
  | close | menu | option | branch | otherwise => rfl

omit h in
theorem settle_reading (p : Player SingleScript) :
    (p.reading b).settle = p.settle.reading b := by
  unfold settle reading
  dsimp only
  split <;> rfl

/-- A turn that does not misname anybody is the same with either script. -/
theorem turn_reading (hg : Grown a.sentences) (honly : OnlyReads a p)
    (hnames : ¬ Misnames a b p) : (p.reading b).turn = Attempt.reading b p.turn := by
  rcases honly.cases with hscript | hscript
  · rw [reading_eq_self hscript, turn_without_script hscript]
    exact congrArg Except.ok (reading_eq_self (p := p.finish) hscript b).symm
  · have hscript' := reading_script hscript b
    cases hs : a.sentence? p.index with
    | none =>
      have hs' : b.sentence? p.index = none := (sentence?_congr h p.index).trans hs
      rw [turn_at_end hscript hs, turn_at_end hscript' hs']
      rfl
    | some s =>
      have hs' : b.sentence? p.index = some s := (sentence?_congr h p.index).trans hs
      have hredirect : (p.reading b).redirect? b s = p.redirect? a s := by
        simp only [redirect?, sentence?_congr h]
        rfl
      cases hr : p.redirect? a s with
      | some target =>
        rw [turn_of_redirect hscript hs hr,
          turn_of_redirect hscript' hs' (hredirect.trans hr)]
        rfl
      | none =>
        have hexecute : Player.execute { p.reading b with moved := false } s =
            (Player.execute { p with moved := false } s).reading b := by
          refine execute_reading (p := { p with moved := false }) h hscript ?_ ?_
          · rintro c rfl
            exact hg.no_command c (List.mem_of_getElem? hs)
          · rintro line rfl hspeaker
            by_contra hne
            exact hnames ⟨line, by rw [sentence?, hscript, Option.bind_some, hs], hspeaker, hne⟩
        rw [turn_of_execute hscript hs hr, turn_of_execute hscript' hs' (hredirect.trans hr),
          hexecute]
        cases Player.execute { p with moved := false } s with
        | ok q => exact congrArg Except.ok (settle_reading q)
        | error failure => rfl

end

/-- The first that a named line shows is the character for whom its speaker stands. -/
theorem first_shown_of_say {line : Say} (hscript : p.script = some a)
    (hrunning : p.status = .running) (hs : a.sentence? p.index = some (.say line))
    (hspeaker : line.speaker ≠ "") (turns : Nat) :
    ((run (turns + 1) p).player.events.drop p.events.length).head? =
      (p.director.character? a line.speaker).map fun name => .character name line.extra := by
  have hturn := turn_of_execute hscript hs (redirect?_of_plain rfl)
  have hsay : Player.execute { p with moved := false } (.say line) =
      (setCharacter { p with moved := false } line.speaker line.extra).andThen
        fun q => q.showText line.text := by
    rw [execute, executeSay, if_neg hspeaker]
  have hname : (p.script.bind fun script => Director.character? p.director script line.speaker) =
      p.director.character? a line.speaker := by
    rw [hscript]
    rfl
  rw [run, if_pos hrunning, hturn, hsay, setCharacter, hname]
  cases p.director.character? a line.speaker with
  | none => simp [Attempt.andThen, Except.map, abort, Outcome.player]
  | some name =>
    dsimp only [Attempt.andThen, showText, Player.shows]
    cases Template.render? p.store line.text with
    | none => simp [Except.map, abort, Outcome.player]
    | some text =>
      dsimp only [Except.map]
      have hwaits : ∀ events, settle { p with moved := false, events } =
          { p with moved := false, events, status := .suspended } := fun events =>
        settle_waiting (p := { p with moved := false, events }) rfl hrunning
      rw [hwaits, run_of_not_running (by simp)]
      simp [Outcome.player]

theorem misnames_shown (h : a.sentences = b.sentences) (hscript : p.script = some a)
    (hrunning : p.status = .running) (hnames : Misnames a b p) (turns : Nat) :
    run (turns + 1) (p.reading b) ≠ (run (turns + 1) p).reading b := by
  obtain ⟨line, hs, hspeaker, hne⟩ := hnames
  rw [sentence?, hscript, Option.bind_some] at hs
  have hs' : b.sentence? p.index = some (.say line) := (sentence?_congr h p.index).trans hs
  have hshown := first_shown_of_say hscript hrunning hs hspeaker turns
  have hshown' := first_shown_of_say (p := p.reading b) (reading_script hscript b) hrunning hs'
    hspeaker turns
  intro heq
  rw [heq, player_reading] at hshown'
  have hsame := hshown.symm.trans hshown'
  refine hne (Option.map_injective ?_ hsame)
  intro name other hevents
  exact (Event.character.inj hevents).1

theorem turn_onlyReads (hg : Grown a.sentences) (honly : OnlyReads a p)
    (hrunning : p.status = .running) (hturn : p.turn = .ok q) :
    OnlyReads a q ∧ q.director = p.director := by
  rcases honly.cases with hscript | hscript
  · rw [turn_without_script hscript] at hturn
    obtain rfl := Except.ok.inj hturn
    exact ⟨honly, rfl⟩
  · obtain ⟨hkept, hdirector, _⟩ := turn_keeps hg hscript hrunning hturn
    exact ⟨fun script hs => Option.some.inj (hs.symm.trans hkept), hdirector⟩

theorem Trips.director {script : Script} {d : SingleScript} {e : RunError}
    (h : Trips script d q e) : q.director = d := by
  cases h with
  | malformed _ hdirector => exact hdirector
  | unbound _ _ _ _ _ hdirector => exact hdirector
  | led hanswers =>
    rcases hanswers with ⟨_, hleave⟩ | hfinished
    · cases hleave
    · cases hfinished

theorem failure_onlyReads {e : RunError} (hg : Grown a.sentences) (honly : OnlyReads a p)
    (hturn : p.turn = .error (e, q)) : OnlyReads a q ∧ q.director = p.director := by
  rcases honly.cases with hscript | hscript
  · simp [turn_without_script hscript] at hturn
  · obtain ⟨hkept, htrips⟩ := trips_turn hg hscript hturn
    exact ⟨by rwa [OnlyReads, hkept], htrips.director⟩

theorem run_onlyReads (hg : Grown a.sentences) (turns : Nat) (honly : OnlyReads a p) :
    OnlyReads a (run turns p).player ∧ (run turns p).player.director = p.director := by
  induction turns generalizing p with
  | zero =>
    unfold run
    split <;> exact ⟨honly, rfl⟩
  | succ turns ih =>
    by_cases hrunning : p.status = .running
    · simp only [run, if_pos hrunning]
      rcases hturn : p.turn with ⟨e, q⟩ | q
      · exact failure_onlyReads (q := q) hg honly hturn
      · obtain ⟨hnext, hdirector⟩ := turn_onlyReads hg honly hrunning hturn
        obtain ⟨hend, hsame⟩ := ih hnext
        exact ⟨hend, hsame.trans hdirector⟩
    · rw [run_of_not_running hrunning]
      exact ⟨honly, rfl⟩

-- By induction on the turns: the first turn that misnames somebody ends both runs, and they show
-- different characters.
theorem run_reading_iff (hg : Grown a.sentences) (h : a.sentences = b.sentences) {turns : Nat}
    (honly : OnlyReads a p) :
    run turns (p.reading b) = (run turns p).reading b ↔ NamesAlike a b turns p := by
  induction turns generalizing p with
  | zero =>
    have hrun : run 0 (p.reading b) = (run 0 p).reading b := by
      by_cases hrunning : p.status = .running <;> simp [run, hrunning, Outcome.reading]
    simpa only [NamesAlike, iff_true] using hrun
  | succ turns ih =>
    by_cases hrunning : p.status = .running
    · simp only [NamesAlike, hrunning, forall_const]
      by_cases hnames : Misnames a b p
      · have hscript : p.script = some a := by
          obtain ⟨line, hs, _⟩ := hnames
          rcases honly.cases with hscript | hscript
          · simp [sentence?, hscript] at hs
          · exact hscript
        simp only [hnames, not_true_eq_false, false_and, iff_false]
        exact misnames_shown h hscript hrunning hnames turns
      · simp only [hnames, not_false_eq_true, true_and, run, reading_status, if_pos hrunning,
          turn_reading h hg honly hnames]
        rcases hturn : p.turn with failure | q
        · simp [Attempt.reading, Outcome.reading, reading, abort]
        · simp only [Attempt.reading, Except.ok.injEq, forall_eq']
          exact ih (turn_onlyReads hg honly hrunning hturn).1
    · have hboth : run (turns + 1) (p.reading b) = (run (turns + 1) p).reading b := by
        rw [run_of_not_running hrunning, run_of_not_running (p := p.reading b) hrunning]
        rfl
      simp only [NamesAlike, hrunning, false_implies, iff_true]
      exact hboth

theorem goOn_reading (p q : Player SingleScript) :
    (p.reading b).goOn (q.reading b) = (p.goOn q).map (Player.reading b) := by
  unfold goOn
  rw [reading_status]
  split <;> rfl

theorem resume_reading (h : a.sentences = b.sentences) (honly : OnlyReads a p) (r : Request) :
    (p.reading b).resume r = (p.resume r).map (Player.reading b) := by
  have hmenu := reading_waitingMenu? h honly
  cases r with
  | proceed =>
    simp only [resume, reading_status, hmenu]
    split
    · cases p.waitingMenu? <;> rfl
    · rfl
  | choose k =>
    simp only [resume, reading_status, hmenu]
    split
    · cases p.waitingMenu? with
      | none => rfl
      | some m => cases hm : m.options[k]? <;> simp only [hm] <;> rfl
    · rfl

/-- A cue is refused with either script, or it sets the same player running. -/
theorem prompt_reading (h : a.sentences = b.sentences) (honly : OnlyReads a p) (c : Cue) :
    (p.reading b).prompt (c.reading b) = (p.prompt (c.reading a)).map (Player.reading b) := by
  cases c with
  | play script callback => rfl
  | proceed => exact resume_reading h honly .proceed
  | choose option => exact resume_reading h honly (.choose option)
  | goto index => exact goOn_reading p { p with index }
  | jump outlet => exact goOn_reading p p.advance
  | next => exact goOn_reading p p.advance

theorem prompt_onlyReads (honly : OnlyReads a p) {c : Cue} (h : p.prompt (c.reading a) = .ok q) :
    OnlyReads a q ∧ q.director = p.director := by
  refine ⟨?_, ?_⟩
  · rcases prompt_eq_ok h with ⟨script, callback, hc, rfl⟩ | ⟨_, _, _, hscript⟩
    · intro other hother
      obtain rfl : script = other := Option.some.inj hother
      cases c <;> simp_all [Cue.reading]
    · rwa [OnlyReads, hscript]
  · cases c with
    | play script callback =>
      obtain rfl := Except.ok.inj h
      rfl
    | proceed => exact (resume_keeps (r := .proceed) h).2.1
    | choose option => exact (resume_keeps (r := .choose option) h).2.1
    | goto index | jump outlet | next =>
      obtain ⟨_, rfl⟩ := goOn_eq_ok h
      rfl

theorem take_onlyReads (hg : Grown a.sentences) (honly : OnlyReads a p) (turns : Nat) (c : Cue) :
    OnlyReads a (p.take turns (c.reading a)).player ∧
      (p.take turns (c.reading a)).player.director = p.director := by
  rw [take_eq]
  cases hprompt : p.prompt (c.reading a) with
  | error e => exact ⟨honly, rfl⟩
  | ok q =>
    obtain ⟨hq, hdirector⟩ := prompt_onlyReads honly hprompt
    obtain ⟨hend, hsame⟩ := run_onlyReads hg turns hq
    exact ⟨hend, hsame.trans hdirector⟩

theorem take_reading_iff (hg : Grown a.sentences) (h : a.sentences = b.sentences)
    (honly : OnlyReads a p) (turns : Nat) (c : Cue) :
    (p.reading b).take turns (c.reading b) = (p.take turns (c.reading a)).reading b ↔
      ∀ q, p.prompt (c.reading a) = .ok q → NamesAlike a b turns q := by
  rw [take_eq, take_eq, prompt_reading h honly]
  cases hprompt : p.prompt (c.reading a) with
  | error e => simp [Except.map, Outcome.reading]
  | ok q =>
    simp only [Except.map, Except.ok.injEq, forall_eq']
    exact run_reading_iff hg h (prompt_onlyReads honly hprompt).1

theorem takeAll_reading_iff (hg : Grown a.sentences) (h : a.sentences = b.sentences)
    (honly : OnlyReads a p) (calls : List (Nat × Cue)) :
    (p.reading b).takeAll (calling b calls) =
        (p.takeAll (calling a calls)).map (Outcome.reading b) ↔
      NamesAllAlike a b p (calling a calls) := by
  induction calls generalizing p with
  | nil => simp [calling, takeAll, NamesAllAlike]
  | cons call calls ih =>
    obtain ⟨turns, c⟩ := call
    have hhead := take_reading_iff hg h honly turns c
    have hrest := ih (take_onlyReads hg honly turns c).1
    simp only [calling, List.map_cons, takeAll, List.cons.injEq, NamesAllAlike] at hrest ⊢
    constructor
    · rintro ⟨hfirst, hothers⟩
      refine ⟨hhead.mp hfirst, hrest.mp ?_⟩
      rwa [hfirst, player_reading] at hothers
    · rintro ⟨hnames, hothers⟩
      have hfirst := hhead.mpr hnames
      refine ⟨hfirst, ?_⟩
      rw [hfirst, player_reading]
      exact hrest.mpr hothers

/-- Every speaker of the script's lines stands for the same by both scripts. -/
def Understood (a b : Script) (d : SingleScript) : Prop :=
  ∀ line, .say line ∈ a.sentences → line.speaker ≠ "" →
    d.character? a line.speaker = d.character? b line.speaker

theorem understood_of_byName (a b : Script) : Understood a b ⟨none⟩ := fun _ _ _ => rfl

theorem understood_of_order (h : a.characters = b.characters) (d : SingleScript) :
    Understood a b d := by
  intro line _ _
  simp only [SingleScript.character?, Script.characterIndex?, h]

theorem not_misnames_of_understood (honly : OnlyReads a p) (h : Understood a b p.director) :
    ¬ Misnames a b p := by
  rintro ⟨line, hs, hspeaker, hne⟩
  obtain ⟨script, hscript, hline⟩ := Option.bind_eq_some_iff.mp hs
  obtain rfl := honly script hscript
  exact hne (h line (List.mem_of_getElem? hline) hspeaker)

theorem namesAlike_of_understood (hg : Grown a.sentences) {turns : Nat} (honly : OnlyReads a p)
    (h : Understood a b p.director) : NamesAlike a b turns p := by
  induction turns generalizing p with
  | zero => trivial
  | succ turns ih =>
    intro hrunning
    refine ⟨not_misnames_of_understood honly h, fun q hturn => ?_⟩
    obtain ⟨hq, hdirector⟩ := turn_onlyReads hg honly hrunning hturn
    exact ih hq (by rwa [hdirector])

theorem namesAllAlike_of_understood (hg : Grown a.sentences) (honly : OnlyReads a p)
    (h : Understood a b p.director) (calls : List (Nat × Cue)) :
    NamesAllAlike a b p (calling a calls) := by
  induction calls generalizing p with
  | nil => trivial
  | cons call calls ih =>
    obtain ⟨turns, c⟩ := call
    refine ⟨fun q hprompt => ?_, ?_⟩
    · obtain ⟨hq, hdirector⟩ := prompt_onlyReads honly hprompt
      exact namesAlike_of_understood hg hq (by rwa [hdirector])
    · obtain ⟨hend, hdirector⟩ := take_onlyReads hg honly turns c
      exact ih hend (by rwa [hdirector])

end

/-- Equal scripts that were compiled are interchangeable but for the order of their characters. A
character has the same index in both, whichever it is, exactly if the order is the same. Calls to
play one of them are answered like the same calls to play the other exactly if no line is said
whose speaker stands for somebody else. That is so without bindings, if the order is the same, and
if the bindings have every speaker stand for the same. -/
theorem interchangeable_but_for_order (a b : Script) (ha : a.Compiled) (hb : b.Compiled)
    (h : a.same b = true) :
    (a.sentences = b.sentences ∧ a.jumps = b.jumps ∧ a.characters.Perm b.characters) ∧
    ((∀ key, a.characterIndex? key = b.characterIndex? key) ↔ a.characters = b.characters) ∧
    (∀ d store calls, (new d store).takeAll (calling b calls) =
        ((new d store).takeAll (calling a calls)).map (Outcome.reading b) ↔
      NamesAllAlike a b (new d store) (calling a calls)) ∧
    ∀ d, d.bindings = none ∨ a.characters = b.characters ∨ Understood a b d →
      ∀ store calls, (new d store).takeAll (calling b calls) =
        ((new d store).takeAll (calling a calls)).map (Outcome.reading b) := by
  obtain ⟨_, hsentences, hjumps, hperm⟩ := Script.eq_but_order_of_same ha hb h
  obtain ⟨_, _, hcompile⟩ := ha
  have hnodup := (Script.Compiler.faithful_of_compile hcompile).nodup
  have hg := Script.Compiler.grown_of_compile hcompile
  have honly : ∀ d store, OnlyReads a (new d store) := by
    intro d store script hscript
    simp [new] at hscript
  have hiff := fun d store calls =>
    takeAll_reading_iff (p := new d store) hg hsentences (honly d store) calls
  refine ⟨⟨hsentences, hjumps, hperm⟩, ⟨?_, ?_⟩, hiff, ?_⟩
  · exact Script.eq_of_idxOf? hnodup hperm.length_eq
  · intro horder key
    rw [Script.characterIndex?, Script.characterIndex?, horder]
  · intro d hd store calls
    have hunderstood : Understood a b d := by
      rcases hd with hnone | horder | hunderstood
      · obtain ⟨bindings⟩ := d
        obtain rfl : bindings = none := hnone
        exact understood_of_byName a b
      · exact understood_of_order horder d
      · exact hunderstood
    exact (hiff d store calls).mpr
      (namesAllAlike_of_understood hg (honly d store) hunderstood calls)

/-- A line by the first of two characters. -/
def duet : Script := ⟨"t", [.say ⟨"A", "", "hi"⟩], ["A", "B"], [], []⟩

/-- The same line and the same characters, in the other order. -/
def turnedDuet : Script := { duet with characters := ["B", "A"] }

theorem compiled_duet : duet.Compiled := ⟨"t", "[Char] A, B\nA: hi", by rfl⟩

theorem compiled_turnedDuet : turnedDuet.Compiled := ⟨"t", "[Char] B, A\nA: hi", by rfl⟩

/-- With one name for both characters, the two scripts are told apart by no calls. -/
theorem duet_with_one_name : duet.Compiled ∧ turnedDuet.Compiled ∧ duet.same turnedDuet = true ∧
    ∀ store calls, (new ⟨some ["X", "X"]⟩ store).takeAll (calling turnedDuet calls) =
      ((new ⟨some ["X", "X"]⟩ store).takeAll (calling duet calls)).map
        (Outcome.reading turnedDuet) := by
  have hunderstood : Understood duet turnedDuet ⟨some ["X", "X"]⟩ := by
    intro line hline _
    obtain rfl : line = ⟨"A", "", "hi"⟩ := by simpa [duet] using hline
    rfl
  have h := interchangeable_but_for_order duet turnedDuet compiled_duet compiled_turnedDuet
    (by rfl)
  exact ⟨compiled_duet, compiled_turnedDuet, rfl, h.2.2.2 _ (.inr (.inr hunderstood))⟩

/-- With two names, the speaker of the line is another character in each. -/
theorem duet_with_two_names : duet.Compiled ∧ turnedDuet.Compiled ∧
    duet.same turnedDuet = true ∧
    duet.characterIndex? "A" = some 0 ∧ turnedDuet.characterIndex? "A" = some 1 ∧
    ((new ⟨some ["X", "Y"]⟩ .empty).take 2 (.play duet false)).player.events =
      [.visible true, .character "X" "", .text "hi"] ∧
    ((new ⟨some ["X", "Y"]⟩ .empty).take 2 (.play turnedDuet false)).player.events =
      [.visible true, .character "Y" "", .text "hi"] :=
  ⟨compiled_duet, compiled_turnedDuet, rfl, rfl, rfl, rfl, rfl⟩

end Player

end Fabula
